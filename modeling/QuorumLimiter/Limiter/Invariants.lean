import QuorumLimiter.Limiter.Effects

/-!
What holds of every store that applied commands can reach: records lie under
their own keys, policies are within bounds, and every token bucket belongs to a
policy and holds a balance that refills are exact on.
-/

namespace QuorumLimiter.Limiter

def Policy.Bounded (policy : Policy) : Prop :=
  PolicyBounds policy.capacityTokens policy.refillTokens policy.refillIntervalMS
    policy.maxCostTokens

structure Sound (app : AppState) : Prop where
  policies : ∀ key policy, app.policies.get key = some policy →
    key = bytesOf policy.id ∧ policy.Bounded
  buckets : ∀ key b, app.tokenBuckets.get key = some b →
    compositeKey [bytesOf b.policyID, bytesOf b.subject] = .ok key ∧
      (∃ policy, app.getPolicy b.policyID = some policy) ∧ b.Valid

section Reading

variable {app : AppState}

theorem sound_migrated : Sound AppState.migrated := by
  constructor <;> intro key value found <;> cases found

theorem sound_getPolicy {id : String} {policy : Policy} (sound : Sound app)
    (found : app.getPolicy id = some policy) : policy.id = id ∧ policy.Bounded := by
  obtain ⟨key, bounded⟩ := sound.policies _ _ found
  exact ⟨(bytesOf_injective _ _ key).symm, bounded⟩

/-- Every token bucket lies under the key of its own policy and subject. -/
def OwnKeys (app : AppState) : Prop :=
  ∀ key b, app.tokenBuckets.get key = some b →
    compositeKey [bytesOf b.policyID, bytesOf b.subject] = .ok key

theorem sound_ownKeys (sound : Sound app) : OwnKeys app :=
  fun key b stored => (sound.buckets key b stored).1

theorem ownKeys_tokenBucket {policyID subject : String} {b : TokenBucketState} (own : OwnKeys app)
    (found : app.tokenBucket policyID subject = some b) :
    b.policyID = policyID ∧ b.subject = subject := by
  obtain ⟨key, encoded, stored⟩ := lookupPair_eq_some_iff.mp found
  have parts := compositeKey_injective _ _ _ (own key b stored) encoded
  simp only [List.cons.injEq, and_true] at parts
  exact ⟨bytesOf_injective _ _ parts.1, bytesOf_injective _ _ parts.2⟩

theorem ownKeys_paired (own : OwnKeys app) : Paired app.tokenBuckets :=
  fun key b stored => ⟨_, _, own key b stored⟩

theorem sound_tokenBucket {policyID subject : String} {b : TokenBucketState} (sound : Sound app)
    (found : app.tokenBucket policyID subject = some b) :
    b.policyID = policyID ∧ b.subject = subject ∧
      (∃ policy, app.getPolicy policyID = some policy) ∧ b.Valid := by
  obtain ⟨rfl, rfl⟩ := ownKeys_tokenBucket (sound_ownKeys sound) found
  obtain ⟨key, _, stored⟩ := lookupPair_eq_some_iff.mp found
  exact ⟨rfl, rfl, (sound.buckets key b stored).2⟩

end Reading

section Converting

@[simp] theorem refillBucket_policyID (b : TokenBucketState) (capacity refill interval now : Int64) :
    (refillBucket b capacity refill interval now).policyID = b.policyID := by
  rw [refillBucket_frame]

@[simp] theorem refillBucket_subject (b : TokenBucketState) (capacity refill interval now : Int64) :
    (refillBucket b capacity refill interval now).subject = b.subject := by
  rw [refillBucket_frame]

variable {app after : AppState} {old : Policy} {p : UpdatePolicyPayload} {ts : Int64}

@[simp] theorem convertBucket_policyID (b : TokenBucketState) :
    (convertBucket old p ts b).policyID = b.policyID := by
  simp only [convertBucket, refillBucket_policyID]

@[simp] theorem convertBucket_subject (b : TokenBucketState) :
    (convertBucket old p ts b).subject = b.subject := by
  simp only [convertBucket, refillBucket_subject]

theorem convertBucket_nonneg {b : TokenBucketState} (bounded : old.Bounded)
    (bounds : PolicyBounds p.capacityTokens p.refillTokens p.refillIntervalMS p.maxCostTokens)
    (valid : b.balance.Valid) : (convertBucket old p ts b).balance.Valid := by
  have kept := refillBucket_nonneg bounded valid ts
  unfold convertBucket
  generalize refillBucket b old.capacityTokens old.refillTokens old.refillIntervalMS ts = refilled
    at kept ⊢
  obtain ⟨tokens, remainder, early⟩ := kept
  refine ⟨?_, ?_, early⟩
  · simp only [TokenBucketState.balance]
    split
    · rw [capacity_milli bounds]
      linarith [bounds.capacityLow]
    · exact tokens
  · simp only [TokenBucketState.balance]
    split
    · exact le_refl 0
    · exact remainder

theorem convertBucket_remainder {b : TokenBucketState} (bounded : old.Bounded)
    (bounds : PolicyBounds p.capacityTokens p.refillTokens p.refillIntervalMS p.maxCostTokens)
    (valid : b.balance.Valid) :
    (convertBucket old p ts b).refillRemainder.toInt < p.refillIntervalMS.toInt := by
  have within := refillBucket_within bounded valid ts
  simp only [convertBucket]
  split
  · exact lt_of_lt_of_le (by decide) bounds.intervalLow
  · rename_i same
    rw [← not_not.mp same]
    exact within.2

theorem convertBucket_valid {b : TokenBucketState} (bounded : old.Bounded)
    (bounds : PolicyBounds p.capacityTokens p.refillTokens p.refillIntervalMS p.maxCostTokens)
    (valid : b.Valid) (time : Timestamp ts) : (convertBucket old p ts b).Valid := by
  refine ⟨convertBucket_nonneg bounded bounds valid.balance, ?_⟩
  have last := (refillBucket_valid bounded valid time).last
  unfold convertBucket
  exact last

theorem writeBuckets_get {converted : List TokenBucketState}
    (written : writeBuckets app converted = .ok after) (key : Bytes) :
    (∃ b ∈ converted, compositeKey [bytesOf b.policyID, bytesOf b.subject] = .ok key ∧
        after.tokenBuckets.get key = some b) ∨
      ((∀ b ∈ converted, compositeKey [bytesOf b.policyID, bytesOf b.subject] ≠ .ok key) ∧
        after.tokenBuckets.get key = app.tokenBuckets.get key) := by
  -- Each key holds the last bucket written under it, or what it held before.
  induction converted generalizing app with
  | nil =>
      cases written
      exact Or.inr ⟨by simp, rfl⟩
  | cons first rest ih =>
      obtain ⟨stored, put, written⟩ := bind_ok written
      obtain ⟨tokenBuckets, paired, rfl⟩ := AppState.putTokenBucket_ok put
      obtain ⟨own, encoded, rfl⟩ := putPair_ok paired
      rcases ih written with ⟨b, member, same, found⟩ | ⟨others, kept⟩
      · exact Or.inl ⟨b, by simp [member], same, found⟩
      · rw [Bucket.get_put] at kept
        split at kept
        · rename_i same
          exact Or.inl ⟨first, by simp, same ▸ encoded, kept⟩
        · rename_i different
          refine Or.inr ⟨?_, kept⟩
          intro b member same
          rcases List.mem_cons.mp member with rfl | later
          · rw [encoded] at same
            cases same
            exact different rfl
          · exact others b later same

/-- An update converts the buckets of its policy and no others. -/
theorem converted_get {id : String} {visited : List (Bytes × TokenBucketState)} (own : OwnKeys app)
    (walked : app.forEachTokenBucketByPolicy id = .ok visited)
    (written : writeBuckets app (visited.map fun item => convertBucket old p ts item.2) =
      .ok after) (key : Bytes) :
    after.tokenBuckets.get key =
      (app.tokenBuckets.get key).map fun b =>
        if b.policyID = id then convertBucket old p ts b else b := by
  have mem := mem_forEachOwned (ownKeys_paired own) walked
  rcases writeBuckets_get written key with ⟨_, member, same, found⟩ | ⟨others, kept⟩
  · obtain ⟨⟨subject, b⟩, visit, rfl⟩ := List.mem_map.mp member
    obtain ⟨other, encoded, stored⟩ := lookupPair_eq_some_iff.mp ((mem subject b).mp visit)
    have mine := own other b stored
    have parts := compositeKey_injective _ _ _ mine encoded
    simp only [List.cons.injEq, and_true] at parts
    simp only [convertBucket_policyID, convertBucket_subject] at same
    rw [mine] at same
    cases same
    rw [found, stored, Option.map_some, if_pos (bytesOf_injective _ _ parts.1)]
  · rw [kept]
    cases stored : app.tokenBuckets.get key with
    | none => rfl
    | some b =>
        rw [Option.map_some, if_neg]
        rintro rfl
        have visit := (mem (bytesOf b.subject) b).mpr
          (lookupPair_eq_some_iff.mpr ⟨key, own key b stored, stored⟩)
        apply others _ (List.mem_map.mpr ⟨_, visit, rfl⟩)
        rw [convertBucket_policyID, convertBucket_subject]
        exact own key b stored

theorem converted_inv {id : String} {visited : List (Bytes × TokenBucketState)} (own : OwnKeys app)
    (walked : app.forEachTokenBucketByPolicy id = .ok visited)
    (written : writeBuckets app (visited.map fun item => convertBucket old p ts item.2) =
      .ok after) {key : Bytes} {b : TokenBucketState}
    (stored : after.tokenBuckets.get key = some b) :
    ∃ before, app.tokenBuckets.get key = some before ∧
      (before.policyID = id ∧ b = convertBucket old p ts before ∨
        before.policyID ≠ id ∧ b = before) := by
  rw [converted_get own walked written] at stored
  obtain ⟨before, present, rfl⟩ := Option.map_eq_some_iff.mp stored
  refine ⟨before, present, ?_⟩
  by_cases mine : before.policyID = id
  · exact Or.inl ⟨mine, if_pos mine⟩
  · exact Or.inr ⟨mine, if_neg mine⟩

end Converting

section Charging

variable {app : AppState} {ctx : ApplyContext} {cmd : Command} {p : DecidePayload}
  {policy : Policy} {bucket settled : TokenBucketState} {allowed : Bool} {retryAfter : Int64}

theorem authorize_ok (authorized : authorize app p = .ok policy) :
    app.getPolicy p.policyID = some policy ∧ policy.active = true ∧
      p.cost.toInt ≤ policy.maxCostTokens.toInt ∧
      ∃ client, app.getClient p.clientID = some client ∧ client.active = true ∧
        client.allowsPolicy p.policyID = true := by
  unfold authorize at authorized
  split at authorized
  · contradiction
  rename_i client known
  split at authorized
  · contradiction
  rename_i active
  split at authorized
  · contradiction
  rename_i allows
  split at authorized
  · contradiction
  rename_i stored found
  split at authorized
  · contradiction
  rename_i running
  split at authorized
  · contradiction
  rename_i price
  cases authorized
  rw [gt_iff_lt, Int64.not_lt, Int64.le_iff_toInt_le] at price
  exact ⟨found, by simpa using running, price, client, known, by simpa using active,
    by simpa using allows⟩

theorem loadOrInitBucket_cases {subject : String} {now : Int64} (bounded : policy.Bounded)
    (loaded : loadOrInitBucket app policy subject now = .ok bucket) :
    app.tokenBucket policy.id subject = some bucket ∨
      app.tokenBucket policy.id subject = none ∧ bucket.policyID = policy.id ∧
        bucket.subject = subject ∧ bucket.lastRefillMS = now ∧
        bucket.balance = ⟨policy.capacityTokens.toInt * 1000, 0, now.toInt⟩ := by
  obtain ⟨found, looked, loaded⟩ := bind_ok loaded
  have stored : app.tokenBucket policy.id subject = found := getPair_ok looked
  cases found with
  | some found =>
      cases loaded
      exact Or.inl stored
  | none =>
      cases loaded
      have full : (policy.capacityTokens * milliPerToken).toInt = policy.capacityTokens.toInt * 1000 :=
        capacity_milli bounded
      refine Or.inr ⟨stored, rfl, rfl, rfl, ?_⟩
      rw [TokenBucketState.balance, full]
      rfl

theorem initial_valid {now : Int64} (bounded : policy.Bounded) (time : 0 ≤ now.toInt)
    (full : bucket.balance = ⟨policy.capacityTokens.toInt * 1000, 0, now.toInt⟩) :
    bucket.balance.Valid := by
  rw [full]
  exact ⟨by linarith [bounded.capacityLow], le_refl 0, time⟩

theorem loadOrInitBucket_ok {subject : String} {now : Int64} (sound : Sound app)
    (bounded : policy.Bounded) (time : Timestamp now)
    (loaded : loadOrInitBucket app policy subject now = .ok bucket) :
    bucket.policyID = policy.id ∧ bucket.subject = subject ∧ bucket.Valid ∧
      (app.tokenBucket policy.id subject = some bucket ∨
        app.tokenBucket policy.id subject = none ∧
          bucket.balance = ⟨policy.capacityTokens.toInt * 1000, 0, now.toInt⟩) := by
  rcases loadOrInitBucket_cases bounded loaded with stored | ⟨absent, owner, named, last, full⟩
  · obtain ⟨owner, named, _, valid⟩ := sound_tokenBucket sound stored
    exact ⟨owner, named, valid, Or.inl stored⟩
  · refine ⟨owner, named, ⟨initial_valid bounded time.1 full, ?_⟩, Or.inr ⟨absent, full⟩⟩
    rw [last]
    exact time

@[simp] theorem spend_policyID (b : TokenBucketState) (cost refill interval : Int64) :
    (spend b cost refill interval).1.policyID = b.policyID := by
  unfold spend
  simp only
  split
  · rfl
  · split <;> rfl

@[simp] theorem spend_subject (b : TokenBucketState) (cost refill interval : Int64) :
    (spend b cost refill interval).1.subject = b.subject := by
  unfold spend
  simp only
  split
  · rfl
  · split <;> rfl

theorem settle_owner (spent : settle ctx cmd p policy bucket = (settled, allowed, retryAfter)) :
    settled.policyID = bucket.policyID ∧ settled.subject = bucket.subject := by
  unfold settle at spent
  simp only [Prod.mk.injEq] at spent
  obtain ⟨rfl, _⟩ := spent
  simp only [spend_policyID, spend_subject, refillBucket_policyID, refillBucket_subject, and_self]

theorem settle_spec (bounded : policy.Bounded) (valid : bucket.balance.Valid)
    (low : 0 ≤ p.cost.toInt) (high : p.cost.toInt ≤ policy.maxCostTokens.toInt)
    (spent : settle ctx cmd p policy bucket = (settled, allowed, retryAfter)) :
    settled.balance.Valid ∧
      ∃ refilled, refilled = bucket.balance.refill policy.capacityTokens.toInt
          policy.refillTokens.toInt policy.refillIntervalMS.toInt cmd.timestampMS.toInt ∧
        (allowed = true ↔ p.cost.toInt * 1000 ≤ refilled.tokens) ∧
        settled.balance =
          ⟨refilled.tokens - (if allowed then p.cost.toInt * 1000 else 0), refilled.remainder,
            refilled.last⟩ := by
  -- A decision refills exactly, then takes its cost if it is allowed.
  have refill := refillBucket_balance bounded valid cmd.timestampMS
  have kept := refillBucket_nonneg bounded valid cmd.timestampMS
  obtain ⟨capacity, cost⟩ := And.intro bounded.capacityHigh bounded.costHigh
  unfold settle at spent
  simp only [Prod.mk.injEq] at spent
  obtain ⟨rfl, rfl, rfl⟩ := spent
  generalize refillBucket bucket policy.capacityTokens policy.refillTokens policy.refillIntervalMS
    cmd.timestampMS = refilled at refill kept ⊢
  rcases spend_spec refilled p.cost policy.refillTokens policy.refillIntervalMS kept.tokens
    low (by linarith) with ⟨yes, enough, left, value, same⟩ | ⟨no, short, same⟩
  · rw [same, yes]
    refine ⟨⟨?_, kept.remainder, kept.last⟩, _, rfl, ?_, ?_⟩
    · change 0 ≤ left.toInt
      linarith
    · rw [← refill]
      exact iff_of_true rfl enough
    · rw [← refill, if_pos rfl]
      simp only [TokenBucketState.balance, value]
  · rw [same, no]
    refine ⟨kept, _, rfl, ?_, ?_⟩
    · rw [← refill]
      exact iff_of_false Bool.false_ne_true (not_le.mpr short)
    · rw [← refill]
      simp [TokenBucketState.balance]

theorem settle_within (bounded : policy.Bounded) (valid : bucket.balance.Valid)
    (low : 0 ≤ p.cost.toInt) (high : p.cost.toInt ≤ policy.maxCostTokens.toInt)
    (spent : settle ctx cmd p policy bucket = (settled, allowed, retryAfter)) :
    settled.tokensMilli.toInt ≤ policy.capacityTokens.toInt * 1000 ∧
      settled.refillRemainder.toInt < policy.refillIntervalMS.toInt := by
  obtain ⟨_, refilled, same, _, balance⟩ := settle_spec bounded valid low high spent
  obtain ⟨tokens, remainder⟩ := Balance.refill_within bucket.balance policy.capacityTokens.toInt
    policy.refillTokens.toInt cmd.timestampMS.toInt
    (show 0 < policy.refillIntervalMS.toInt by linarith [bounded.intervalLow])
  rw [← same] at tokens remainder
  have left : settled.tokensMilli.toInt =
      refilled.tokens - (if allowed then p.cost.toInt * 1000 else 0) :=
    congrArg Balance.tokens balance
  constructor
  · rw [left]
    split <;> linarith
  · exact lt_of_eq_of_lt (congrArg Balance.remainder balance) remainder

theorem settle_valid (bounded : policy.Bounded) (valid : bucket.Valid)
    (time : Timestamp cmd.timestampMS) (low : 0 ≤ p.cost.toInt)
    (high : p.cost.toInt ≤ policy.maxCostTokens.toInt)
    (spent : settle ctx cmd p policy bucket = (settled, allowed, retryAfter)) : settled.Valid := by
  obtain ⟨balance, refilled, rfl, _, same⟩ := settle_spec bounded valid.balance low high spent
  have last : settled.lastRefillMS.toInt = max cmd.timestampMS.toInt bucket.lastRefillMS.toInt :=
    (congrArg Balance.last same).trans (Balance.refill_last _ _ _ _ _)
  refine ⟨balance, ?_, ?_⟩
  · rw [last]
    exact le_trans time.1 (le_max_left _ _)
  · rw [last]
    exact max_le time.2 valid.last.2

end Charging

section Steps

variable {lib : Stdlib} {ctx : ApplyContext} {cmd : Command} {app after : AppState}
  {result : Result}

theorem getPolicy_put (app : AppState) (policy : Policy) (own id : String) :
    ({ app with policies := app.policies.put (bytesOf own) policy } : AppState).getPolicy id =
      if id = own then some policy else app.getPolicy id := by
  rw [AppState.getPolicy, Bucket.get_put]
  by_cases same : id = own
  · simp [same]
  · rw [if_neg same, if_neg (fun equal => same (bytesOf_injective _ _ equal))]
    rfl

theorem mem_expiredKeys {key : Bytes} {d : DecisionRecord}
    (stored : app.idempotency.get key = some d) (cutoff : Int64) :
    key ∈ expiredKeys app cutoff ↔ d.expiresAtMS ≤ cutoff := by
  rw [expiredKeys, List.mem_map]
  constructor
  · rintro ⟨⟨_, other⟩, member, rfl⟩
    obtain ⟨present, late⟩ := List.mem_filter.mp member
    cases ((Bucket.get_eq_some_iff _ _ _).mpr present).symm.trans stored
    exact of_decide_eq_true late
  · intro late
    exact ⟨(key, d), List.mem_filter.mpr ⟨(Bucket.get_eq_some_iff _ _ _).mp stored,
      decide_eq_true late⟩, rfl⟩

theorem sound_putPolicy (policy : Policy) {audit : Bucket Nat AuditEvent} (sound : Sound app)
    (bounded : policy.Bounded) :
    Sound { app with policies := app.policies.put (bytesOf policy.id) policy, audit } := by
  constructor
  · intro key stored found
    simp only [Bucket.get_put] at found
    split at found
    · rename_i same
      cases found
      exact ⟨same, bounded⟩
    · exact sound.policies key stored found
  · intro key b found
    obtain ⟨own, ⟨owner, existing⟩, valid⟩ := sound.buckets key b found
    refine ⟨own, ?_, valid⟩
    change ∃ owner, ({ app with policies := app.policies.put (bytesOf policy.id) policy } :
      AppState).getPolicy b.policyID = some owner
    rw [getPolicy_put]
    split
    · exact ⟨policy, rfl⟩
    · exact ⟨owner, existing⟩

theorem sound_effect (sound : Sound app) (time : Timestamp cmd.timestampMS)
    (effect : Effect lib ctx cmd app result after) : Sound after := by
  cases effect with
  | rejected code msg => exact sound
  | createdPolicy p name typed payload shape named bounds absent =>
      exact sound_putPolicy (p.policy name cmd.timestampMS) sound bounds
  | updatedPolicy p old name visited tokenBuckets typed payload found current named bounds walked
      written =>
      obtain ⟨_, bounded⟩ := sound_getPolicy sound found
      have converted : Sound { app with tokenBuckets } := by
        refine ⟨sound.policies, ?_⟩
        intro key b stored
        obtain ⟨before, present, change⟩ :=
          converted_inv (sound_ownKeys sound) walked written stored
        obtain ⟨own, owner, valid⟩ := sound.buckets key before present
        rcases change with ⟨_, rfl⟩ | ⟨_, rfl⟩
        · rw [convertBucket_policyID, convertBucket_subject]
          exact ⟨own, owner, convertBucket_valid bounded bounds valid time⟩
        · exact ⟨own, owner, valid⟩
      exact sound_putPolicy (p.policy old name cmd.timestampMS) converted bounds
  | switchedPolicy p old typed payload found current =>
      obtain ⟨_, bounded⟩ := sound_getPolicy sound found
      exact sound_putPolicy (p.policy old cmd.timestampMS) sound bounded
  | createdClient p name typed payload named listed filled absent free existing =>
      exact ⟨sound.policies, sound.buckets⟩
  | revokedAgain p old typed payload found inactive => exact sound
  | revokedClient p old typed payload found active => exact ⟨sound.policies, sound.buckets⟩
  | replayed p prior typed payload shape found same => exact sound
  | charged p policy bucket settled allowed retryAfter tokenBuckets idempotency typed payload shape
      fresh authorized loaded spent charged recorded =>
      obtain ⟨found, _, price, _⟩ := authorize_ok authorized
      obtain ⟨_, _, cost⟩ := validateDecisionInput_ok shape
      obtain ⟨same, bounded⟩ := sound_getPolicy sound found
      obtain ⟨owner, _, valid, _⟩ := loadOrInitBucket_ok sound bounded time loaded
      obtain ⟨kept, _⟩ := settle_owner spent
      have holds := settle_valid bounded valid time (by linarith) price spent
      obtain ⟨own, encoded, rfl⟩ := putPair_ok charged
      refine ⟨sound.policies, ?_⟩
      intro key b stored
      simp only [Bucket.get_put] at stored
      split at stored
      · rename_i equal
        cases stored
        refine ⟨equal ▸ encoded, ⟨policy, ?_⟩, holds⟩
        rw [kept, owner, same]
        exact found
      · exact sound.buckets key b stored
  | pruned p typed payload => exact ⟨sound.policies, sound.buckets⟩

end Steps

section Subjects

def Result.decides (policyID subject : String) (result : Result) : Bool :=
  !result.duplicate &&
    result.decision.any fun d => decide (d.policyID = policyID ∧ d.subject = subject)

/-- What one command does to one subject of one policy. -/
inductive SubjectStep (ctx : ApplyContext) (cmd : Command) (policyID subject : String)
    (app after : AppState) (result : Result) : Prop
  | kept (same : after.tokenBucket policyID subject = app.tokenBucket policyID subject)
      (quiet : result.decides policyID subject = false)
      (rate : ∀ b policy, app.tokenBucket policyID subject = some b →
        app.getPolicy policyID = some policy → ∃ later, after.getPolicy policyID = some later ∧
          later.refillIntervalMS = policy.refillIntervalMS)
  | converted (p : UpdatePolicyPayload) (old later : Policy) (b : TokenBucketState)
      (bounds : PolicyBounds p.capacityTokens p.refillTokens p.refillIntervalMS p.maxCostTokens)
      (quiet : result.decides policyID subject = false)
      (found : app.getPolicy policyID = some old) (replaced : after.getPolicy policyID = some later)
      (rate : later.refillIntervalMS = p.refillIntervalMS)
      (stored : app.tokenBucket policyID subject = some b)
      (written : after.tokenBucket policyID subject = some (convertBucket old p cmd.timestampMS b))
  | charged (p : DecidePayload) (policy : Policy) (bucket settled : TokenBucketState)
      (allowed : Bool) (retryAfter : Int64) (fresh : result.decides policyID subject = true)
      (outcome : result.outcome = decided allowed)
      (cost : ∀ d ∈ result.decision, d.costTokens = p.cost) (low : 1 ≤ p.cost.toInt)
      (high : p.cost.toInt ≤ policy.maxCostTokens.toInt)
      (found : app.getPolicy policyID = some policy) (same : after.getPolicy policyID = some policy)
      (valid : bucket.Valid)
      (loaded : app.tokenBucket policyID subject = some bucket ∨
        app.tokenBucket policyID subject = none ∧
          bucket.balance = ⟨policy.capacityTokens.toInt * 1000, 0, cmd.timestampMS.toInt⟩)
      (spent : settle ctx cmd p policy bucket = (settled, allowed, retryAfter))
      (written : after.tokenBucket policyID subject = some settled)

variable {lib : Stdlib} {ctx : ApplyContext} {cmd : Command} {app after : AppState}
  {result : Result}

theorem converted_tokenBucket {old : Policy} {p : UpdatePolicyPayload} {ts : Int64} {id : String}
    {visited : List (Bytes × TokenBucketState)} (own : OwnKeys app)
    (walked : app.forEachTokenBucketByPolicy id = .ok visited)
    (written : writeBuckets app (visited.map fun item => convertBucket old p ts item.2) =
      .ok after) (policyID subject : String) :
    after.tokenBucket policyID subject =
      (app.tokenBucket policyID subject).map fun b =>
        if policyID = id then convertBucket old p ts b else b := by
  ext b
  simp only [Option.map_eq_some_iff]
  constructor
  · intro found
    obtain ⟨key, encoded, stored⟩ := lookupPair_eq_some_iff.mp found
    rw [converted_get own walked written] at stored
    obtain ⟨before, present, rfl⟩ := Option.map_eq_some_iff.mp stored
    have looked : app.tokenBucket policyID subject = some before :=
      lookupPair_eq_some_iff.mpr ⟨key, encoded, present⟩
    rw [(ownKeys_tokenBucket own looked).1]
    exact ⟨before, looked, rfl⟩
  · rintro ⟨before, looked, rfl⟩
    obtain ⟨key, encoded, present⟩ := lookupPair_eq_some_iff.mp looked
    apply lookupPair_eq_some_iff.mpr ⟨key, encoded, ?_⟩
    rw [converted_get own walked written, present, Option.map_some,
      (ownKeys_tokenBucket own looked).1]

theorem subject_kept (policyID subject : String) (same : after.tokenBuckets = app.tokenBuckets)
    (quiet : result.decides policyID subject = false)
    (policies : ∀ policy, app.getPolicy policyID = some policy → ∃ later,
      after.getPolicy policyID = some later ∧ later.refillIntervalMS = policy.refillIntervalMS) :
    SubjectStep ctx cmd policyID subject app after result := by
  refine SubjectStep.kept ?_ quiet fun _ policy _ => policies policy
  rw [AppState.tokenBucket, same]
  rfl

theorem effect_subject (sound : Sound app) (time : Timestamp cmd.timestampMS)
    (effect : Effect lib ctx cmd app result after) (policyID subject : String) :
    SubjectStep ctx cmd policyID subject app after result := by
  cases effect with
  | createdPolicy p name typed payload shape named bounds absent =>
      refine subject_kept _ _ rfl rfl fun policy found => ⟨policy, ?_, rfl⟩
      have stored := getPolicy_put app (p.policy name cmd.timestampMS) p.id policyID
      rw [if_neg (by rintro rfl; cases found.symm.trans absent), found] at stored
      exact stored
  | updatedPolicy p old name visited tokenBuckets typed payload found current named bounds walked
      written =>
      obtain ⟨own, _⟩ := sound_getPolicy sound found
      have stored := getPolicy_put app (p.policy old name cmd.timestampMS) old.id policyID
      have buckets := converted_tokenBucket (sound_ownKeys sound) walked written policyID subject
      by_cases same : policyID = p.id
      · subst same
        rw [if_pos own.symm] at stored
        cases present : app.tokenBucket p.id subject with
        | none =>
            rw [present] at buckets
            refine SubjectStep.kept (buckets.trans present.symm) rfl fun b policy looked => ?_
            cases present.symm.trans looked
        | some b =>
            rw [present, Option.map_some, if_pos rfl] at buckets
            exact SubjectStep.converted p old _ b bounds rfl found stored rfl present buckets
      · simp only [if_neg same, Option.map_id_fun', id] at buckets
        refine SubjectStep.kept buckets rfl fun _ policy _ looked => ⟨policy, ?_, rfl⟩
        rw [if_neg (fun equal => same (equal.trans own)), looked] at stored
        exact stored
  | switchedPolicy p old typed payload found current =>
      obtain ⟨own, _⟩ := sound_getPolicy sound found
      have stored := getPolicy_put app (p.policy old cmd.timestampMS) old.id policyID
      refine subject_kept _ _ rfl rfl fun policy looked => ?_
      split at stored
      · rename_i same
        rw [same, own, found] at looked
        cases looked
        exact ⟨_, stored, rfl⟩
      · exact ⟨policy, stored.trans looked, rfl⟩
  | charged p policy bucket settled allowed retryAfter tokenBuckets idempotency typed payload shape
      fresh authorized loaded spent charged recorded =>
      obtain ⟨found, _, price, _⟩ := authorize_ok authorized
      obtain ⟨_, _, cost⟩ := validateDecisionInput_ok shape
      obtain ⟨own, bounded⟩ := sound_getPolicy sound found
      obtain ⟨owner, named, valid, stored⟩ := loadOrInitBucket_ok sound bounded time loaded
      obtain ⟨keptOwner, keptName⟩ := settle_owner spent
      have lookup := lookupPair_stored charged policyID subject
      rw [keptOwner, owner, own, keptName, named] at lookup
      by_cases same : policyID = p.policyID ∧ subject = p.subject
      · obtain ⟨rfl, rfl⟩ := same
        rw [if_pos ⟨rfl, rfl⟩] at lookup
        rw [own] at stored
        refine SubjectStep.charged p policy bucket settled allowed retryAfter ?_ rfl ?_ cost price
          found found valid stored spent lookup
        · simp [Result.decides, decisionRecord]
        · rintro d ⟨⟩
          rfl
      · rw [if_neg same] at lookup
        refine SubjectStep.kept lookup ?_ fun _ policy _ found => ⟨policy, found, rfl⟩
        simp only [Result.decides, decisionRecord, Option.any_some, Bool.not_false, Bool.true_and,
          decide_eq_false_iff_not]
        exact fun equal => same ⟨equal.1.symm, equal.2.symm⟩
  | _ => exact subject_kept _ _ rfl rfl fun policy found => ⟨policy, found, rfl⟩

end Subjects

section Runs

variable (lib : Stdlib)

structure Step where
  ctx : ApplyContext
  cmd : Command
  before : Nat × AppState
  result : Result
  after : Nat × AppState

/-- What applying commands in order does. A Go error rolls its transaction back
and leaves no step. -/
def history : Nat × AppState → List (ApplyContext × Command) → List Step
  | _, [] => []
  | state, (ctx, cmd) :: rest =>
      match apply lib ctx cmd state with
      | .error _ => history state rest
      | .ok (result, next) => ⟨ctx, cmd, state, result, next⟩ :: history next rest

def finish : Nat × AppState → List (ApplyContext × Command) → Nat × AppState
  | state, [] => state
  | state, (ctx, cmd) :: rest =>
      match apply lib ctx cmd state with
      | .error _ => finish state rest
      | .ok (_, next) => finish next rest

variable {lib}

theorem apply_ok {ctx : ApplyContext} {cmd : Command} {state next : Nat × AppState}
    {result : Result} (ran : apply lib ctx cmd state = .ok (result, next)) :
    next.1 = ctx.logIndex ∧ applyTx lib ctx cmd state.2 = .ok (result, next.2) := by
  obtain ⟨⟨_, app⟩, applied, ran⟩ := bind_ok ran
  cases ran
  exact ⟨rfl, applied⟩

theorem apply_effect {ctx : ApplyContext} {cmd : Command} {state next : Nat × AppState}
    {result : Result} (ran : apply lib ctx cmd state = .ok (result, next)) :
    next.1 = ctx.logIndex ∧ Effect lib ctx cmd state.2 result next.2 := by
  obtain ⟨checkpoint, applied⟩ := apply_ok ran
  exact ⟨checkpoint, applyTx_effect applied⟩

/-- A step of a run is a command of it, applied to what the commands before it reach. -/
theorem history_at {state : Nat × AppState} {commands : List (ApplyContext × Command)}
    {past rest : List Step} {step : Step} (ran : history lib state commands = past ++ step :: rest) :
    ∃ earlier later, commands = earlier ++ (step.ctx, step.cmd) :: later ∧
      history lib state earlier = past ∧ finish lib state earlier = step.before ∧
      apply lib step.ctx step.cmd step.before = .ok (step.result, step.after) := by
  induction commands generalizing state past with
  | nil => simp [history] at ran
  | cons command later ih =>
      cases applied : apply lib command.1 command.2 state with
      | error error =>
          rw [history, applied] at ran
          obtain ⟨earlier, after, rfl, before, reached, step⟩ := ih ran
          refine ⟨command :: earlier, after, rfl, ?_, ?_, step⟩
          · rw [history, applied]
            exact before
          · rw [finish, applied]
            exact reached
      | ok answer =>
          rw [history, applied] at ran
          cases past with
          | nil =>
              obtain ⟨rfl, _⟩ := List.cons.inj ran
              exact ⟨[], later, rfl, rfl, rfl, applied⟩
          | cons first past =>
              obtain ⟨rfl, tail⟩ := List.cons.inj ran
              obtain ⟨earlier, after, rfl, before, reached, step⟩ := ih tail
              refine ⟨command :: earlier, after, rfl, ?_, ?_, step⟩
              · rw [history, applied]
                exact congrArg _ before
              · rw [finish, applied]
                exact reached

theorem history_keeps (valid : List Step → Nat × AppState → Prop)
    {commands : List (ApplyContext × Command)} (state : Nat × AppState) (past : List Step)
    (keeps : ∀ command ∈ commands, ∀ past before result after, valid past before →
      apply lib command.1 command.2 before = .ok (result, after) →
      valid (past ++ [⟨command.1, command.2, before, result, after⟩]) after)
    (start : valid past state) : valid (past ++ history lib state commands) (finish lib state commands) := by
  induction commands generalizing state past with
  | nil =>
      rw [history, List.append_nil]
      exact start
  | cons command rest ih =>
      have later := fun other member => keeps other (List.mem_cons_of_mem command member)
      rw [history, finish]
      split
      · exact ih state past later start
      · rename_i result next ran
        rw [List.append_cons]
        exact ih next _ later (keeps command List.mem_cons_self _ _ _ _ start ran)

theorem finish_keeps (valid : AppState → Prop) {commands : List (ApplyContext × Command)}
    (state : Nat × AppState)
    (keeps : ∀ command ∈ commands, ∀ app result after, valid app →
      Effect lib command.1 command.2 app result after → valid after) (start : valid state.2) :
    valid (finish lib state commands).2 :=
  history_keeps (fun _ state => valid state.2) state []
    (fun command member _ _ _ _ holds ran => keeps command member _ _ _ holds (apply_effect ran).2)
    start

/-- The commands stand in a log, each at an index of its own above the sentinel's.
Log indexes are `uint64`. -/
structure Logged (first : Nat) (commands : List (ApplyContext × Command)) : Prop where
  ordered : (first :: commands.map fun command => command.1.logIndex).Pairwise (· < ·)
  fits : ∀ command ∈ commands, command.1.logIndex < 2 ^ 64

theorem logged_cons {first : Nat} {command : ApplyContext × Command}
    {rest : List (ApplyContext × Command)} (logged : Logged first (command :: rest)) :
    first < command.1.logIndex ∧ command.1.logIndex < 2 ^ 64 ∧ Logged first rest ∧
      Logged command.1.logIndex rest := by
  obtain ⟨ordered, fits⟩ := logged
  simp only [List.map_cons, List.pairwise_cons, List.mem_cons] at ordered
  obtain ⟨above, inner, others⟩ := ordered
  have later : ∀ other ∈ rest, other.1.logIndex < 2 ^ 64 :=
    fun other member => fits other (by simp [member])
  refine ⟨above _ (Or.inl rfl), fits command (by simp), ⟨?_, later⟩, ⟨?_, later⟩⟩
  · exact List.pairwise_cons.mpr ⟨fun index member => above index (Or.inr member), others⟩
  · exact List.pairwise_cons.mpr ⟨inner, others⟩

/-- The same for the commands of a log, each applied above everything before it. -/
theorem logged_keeps (valid : List Step → Nat × AppState → Prop)
    {commands : List (ApplyContext × Command)} (state : Nat × AppState) (past : List Step)
    (logged : Logged state.1 commands)
    (keeps : ∀ command ∈ commands, ∀ past before result after, before.1 < command.1.logIndex →
      valid past before → apply lib command.1 command.2 before = .ok (result, after) →
      valid (past ++ [⟨command.1, command.2, before, result, after⟩]) after)
    (start : valid past state) : valid (past ++ history lib state commands) (finish lib state commands) := by
  induction commands generalizing state past with
  | nil =>
      rw [history, List.append_nil]
      exact start
  | cons command rest ih =>
      have later := fun other member => keeps other (List.mem_cons_of_mem command member)
      obtain ⟨above, _, kept, next⟩ := logged_cons logged
      rw [history, finish]
      split
      · exact ih state past kept later start
      · rename_i result reached ran
        rw [List.append_cons]
        rw [← (apply_effect ran).1] at next
        exact ih reached _ next later (keeps command List.mem_cons_self _ _ _ _ above start ran)

theorem sound_finish (state : Nat × AppState) (commands : List (ApplyContext × Command))
    (timed : ∀ command ∈ commands, Timestamp command.2.timestampMS) (sound : Sound state.2) :
    Sound (finish lib state commands).2 :=
  finish_keeps Sound state
    (fun command member _ _ _ sound effect => sound_effect sound (timed command member) effect) sound

end Runs

end QuorumLimiter.Limiter
