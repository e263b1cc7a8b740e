import QuorumLimiter.Limiter.Isolation
import QuorumLimiter.Limiter.Refill

/-!
Renaming a policy. An update that keeps the numbers of a policy refills its buckets early
and moves its version, and changes nothing else that a decision reads. Two runs, with the
update and with a no-op in its place, stay in step: their buckets are alike from the next
refill on, and decisions are answered alike.
-/

namespace QuorumLimiter.Limiter

section Balances

variable {a b : TokenBucketState} {capacity refill interval cost : Int64}

theorem balance_parts (same : a.balance = b.balance) : a.tokensMilli = b.tokensMilli ∧
    a.refillRemainder = b.refillRemainder ∧ a.lastRefillMS = b.lastRefillMS := by
  simpa only [TokenBucketState.balance, Balance.mk.injEq, Int64.toInt_inj] using same

theorem refillBucket_congr (same : a.balance = b.balance) (capacity refill interval now : Int64) :
    (refillBucket a capacity refill interval now).balance =
      (refillBucket b capacity refill interval now).balance := by
  obtain ⟨tokens, remainder, last⟩ := balance_parts same
  unfold refillBucket
  simp only [tokens, remainder, last]
  split
  · rfl
  · split
    · rfl
    · split <;> rfl

theorem spend_congr (same : a.balance = b.balance) (cost refill interval : Int64) :
    (spend a cost refill interval).2 = (spend b cost refill interval).2 ∧
      (spend a cost refill interval).1.balance = (spend b cost refill interval).1.balance := by
  obtain ⟨tokens, remainder, last⟩ := balance_parts same
  unfold spend
  simp only [tokens]
  split
  · exact ⟨rfl, by simp only [TokenBucketState.balance, remainder, last]⟩
  · split <;> exact ⟨rfl, same⟩

theorem convertBucket_kept {old : Policy} {p : UpdatePolicyPayload} {ts : Int64}
    (bounded : old.Bounded) (valid : b.balance.Valid)
    (capacity : p.capacityTokens = old.capacityTokens)
    (interval : p.refillIntervalMS = old.refillIntervalMS) :
    (convertBucket old p ts b).balance =
      (refillBucket b old.capacityTokens old.refillTokens old.refillIntervalMS ts).balance := by
  have within := (refillBucket_within bounded valid ts).1
  rw [← capacity_milli bounded] at within
  unfold convertBucket
  generalize refillBucket b old.capacityTokens old.refillTokens old.refillIntervalMS ts = refilled
    at within ⊢
  have small : ¬refilled.tokensMilli > old.capacityTokens * milliPerToken := by
    rw [gt_iff_lt, Int64.not_lt, Int64.le_iff_toInt_le]
    exact within
  simp only [capacity, interval, if_neg small, ne_eq, not_true_eq_false, if_false]
  rfl

theorem convertBucket_congr {old : Policy} (p : UpdatePolicyPayload) {ts : Int64}
    (same : (refillBucket a old.capacityTokens old.refillTokens old.refillIntervalMS ts).balance =
      (refillBucket b old.capacityTokens old.refillTokens old.refillIntervalMS ts).balance) :
    (convertBucket old p ts a).balance = (convertBucket old p ts b).balance := by
  obtain ⟨tokens, remainder, last⟩ := balance_parts same
  simp only [convertBucket, TokenBucketState.balance, tokens, remainder, last]

end Balances

section Funding

variable {lib : Stdlib} {ctx : ApplyContext} {cmd : Command} {app after : AppState}
  {result : Result}

def Funded (app : AppState) : Prop :=
  ∀ policyID subject b, app.tokenBucket policyID subject = some b → b.balance.Valid

theorem funded_effect (keyed : Keyed app) (time : 0 ≤ cmd.timestampMS.toInt)
    (effect : Effect lib ctx cmd app result after) (funded : Funded app) : Funded after := by
  cases effect with
  | updatedPolicy p old name visited tokenBuckets typed payload found current named bounds walked
      written =>
      intro policyID subject b stored
      obtain ⟨_, _, bounded⟩ := keyed_getPolicy keyed found
      have looked := converted_tokenBucket (keyed_ownKeys keyed) walked written policyID subject
      obtain ⟨before, present, rfl⟩ := Option.map_eq_some_iff.mp (looked.symm.trans stored)
      have valid := funded policyID subject before present
      split
      · exact convertBucket_nonneg bounded bounds valid
      · exact valid
  | charged p policy bucket settled allowed retryAfter tokenBuckets idempotency typed payload shape
      fresh authorized loaded spent charged recorded =>
      intro policyID subject b stored
      obtain ⟨found, _, price, _⟩ := authorize_ok authorized
      obtain ⟨_, _, cost⟩ := validateDecisionInput_ok shape
      obtain ⟨_, _, bounded⟩ := keyed_getPolicy keyed found
      have valid : bucket.balance.Valid := by
        rcases loadOrInitBucket_cases bounded loaded with present | ⟨_, _, _, _, full⟩
        · exact funded _ _ bucket present
        · exact initial_valid bounded time full
      replace stored := (lookupPair_stored charged policyID subject).symm.trans stored
      split at stored
      · cases stored
        exact (settle_spec bounded valid (by omega) price spent).1
      · exact funded policyID subject b stored
  | _ => exact funded

theorem funded_finish (commands : List (ApplyContext × Command))
    (timed : ∀ command ∈ commands, 0 ≤ command.2.timestampMS.toInt) :
    Funded (finish lib (0, AppState.migrated) commands).2 := by
  suffices kept : Keyed (finish lib (0, AppState.migrated) commands).2 ∧
      Funded (finish lib (0, AppState.migrated) commands).2 from kept.2
  refine finish_keeps (fun app => Keyed app ∧ Funded app) (0, AppState.migrated) ?_
    ⟨keyed_migrated, ?_⟩
  · rintro command member app result after ⟨keyed, funded⟩ effect
    exact ⟨keyed_effect keyed effect, funded_effect keyed (timed command member) effect funded⟩
  · intro policyID subject b stored
    simp [AppState.tokenBucket, AppState.migrated] at stored

end Funding

section Relation

/-- How far the inserted update moves the versions of a policy. -/
def shift (id other : String) : UInt64 := if other = id then 1 else 0

/-- The policy under another name, with its version moved. -/
def Policy.Renames (moved : UInt64) (left right : Policy) : Prop :=
  ∃ name updatedAtMS, left = { right with name, version := right.version + moved, updatedAtMS }

/-- The buckets hold the same once they are refilled under the policy. -/
def Level (since : Int64) : Option Policy → TokenBucketState → TokenBucketState → Prop
  | none, a, b => a.balance = b.balance
  | some policy, a, b => ∀ now, since ≤ now →
      (refillBucket a policy.capacityTokens policy.refillTokens policy.refillIntervalMS now).balance =
        (refillBucket b policy.capacityTokens policy.refillTokens policy.refillIntervalMS now).balance

/-- The stores with the update of the policy at some time, and without it. -/
structure Renamed (id : String) (since : Int64) (left right : AppState) : Prop where
  policies : ∀ other,
    Option.Rel (Policy.Renames (shift id other)) (left.getPolicy other) (right.getPolicy other)
  present : right.getPolicy id ≠ none
  clients : left.clients = right.clients
  prefixes : left.clientPrefix = right.clientPrefix
  buckets : ∀ policyID subject, Option.Rel (Level since (right.getPolicy policyID))
    (left.tokenBucket policyID subject) (right.tokenBucket policyID subject)
  records : left.idempotency = right.idempotency

variable {id : String} {since : Int64} {left right : AppState} {a b : TokenBucketState}

theorem level_balance (same : a.balance = b.balance) (policy : Option Policy) :
    Level since policy a b := by
  cases policy with
  | none => exact same
  | some policy => exact fun now _ => refillBucket_congr same _ _ _ now

theorem renamed_uniform (id : String) (since : Int64) : Uniform (Renamed id since) where
  clients renamed := renamed.clients
  prefixes renamed := renamed.prefixes
  absent renamed other := by
    rcases rel_cases (renamed.policies other) with ⟨one, two⟩ | ⟨l, r, one, two, _⟩
    · rw [one, two]
    · simp [one, two]
  putClients renamed _ :=
    ⟨renamed.policies, renamed.present, rfl, renamed.prefixes, renamed.buckets, renamed.records⟩
  putPrefixes renamed _ :=
    ⟨renamed.policies, renamed.present, renamed.clients, rfl, renamed.buckets, renamed.records⟩
  putPolicy := by
    intro left right renamed policy absent
    have another : policy.id ≠ id := by
      rintro rfl
      exact renamed.present absent
    refine ⟨?_, ?_, renamed.clients, renamed.prefixes, ?_, renamed.records⟩
    · intro other
      rw [getPolicy_put, getPolicy_put]
      split
      · rename_i same
        refine Option.Rel.some ⟨policy.name, policy.updatedAtMS, ?_⟩
        rw [shift, if_neg (same ▸ another), UInt64.add_zero]
      · exact renamed.policies other
    · rw [getPolicy_put, if_neg another.symm]
      exact renamed.present
    · intro policyID subject
      rw [getPolicy_put]
      split
      · rename_i same
        -- Buckets of a policy that is not there are alike, so they are under any policy.
        have before := renamed.buckets policyID subject
        rw [same, absent] at before
        rw [same]
        rcases rel_cases before with ⟨one, two⟩ | ⟨a, b, one, two, level⟩
        · exact (congrArg₂ (Option.Rel _) one two).mpr Option.Rel.none
        · exact (congrArg₂ (Option.Rel _) one two).mpr (Option.Rel.some (level_balance level _))
      · exact renamed.buckets policyID subject
  putAudit renamed _ _ :=
    ⟨renamed.policies, renamed.present, renamed.clients, renamed.prefixes, renamed.buckets,
      renamed.records⟩

end Relation

section Adjusting

def UpdatePolicyPayload.adjusted (id : String) (p : UpdatePolicyPayload) : UpdatePolicyPayload :=
  { p with expectedVersion := p.expectedVersion + shift id p.id }

def SetPolicyActivePayload.adjusted (id : String) (p : SetPolicyActivePayload) :
    SetPolicyActivePayload :=
  { p with expectedVersion := p.expectedVersion + shift id p.id }

/-- The commands are the same but for the versions that edits of the policy expect. -/
inductive Command.Adjusted (lib : Stdlib) (id : String) : Command → Command → Prop
  | same (cmd : Command) (keeps : cmd.type ≠ .updatePolicy) (running : cmd.type ≠ .setPolicyActive) :
      Adjusted lib id cmd cmd
  | update (cmd : Command) (payload : Bytes) (typed : cmd.type = .updatePolicy)
      (decoded : lib.updatePolicy payload =
        (lib.updatePolicy cmd.payload).map (UpdatePolicyPayload.adjusted id)) :
      Adjusted lib id { cmd with payload } cmd
  | switch (cmd : Command) (payload : Bytes) (typed : cmd.type = .setPolicyActive)
      (decoded : lib.setPolicyActive payload =
        (lib.setPolicyActive cmd.payload).map (SetPolicyActivePayload.adjusted id)) :
      Adjusted lib id { cmd with payload } cmd

structure Adjusts (lib : Stdlib) (id : String) (left right : LogEntry) : Prop where
  index : left.index = right.index
  term : left.term = right.term
  kind : left.kind = right.kind
  command : Option.Rel (Command.Adjusted lib id) (lib.command left.command)
    (lib.command right.command)

end Adjusting

section Handlers

variable {lib : Stdlib} {ctx : ApplyContext} {cmd : Command} {id : String} {since : Int64}
  {left right : AppState} {shown : Prop}

theorem matched_adjusted {α : Type} {decode : Bytes → Option α} {adjust : α → α}
    {raw payload : Bytes} {related : AppState → AppState → Prop} {first second : α → ApplyResult}
    (decoded : decode raw = (decode payload).map adjust)
    (rest : ∀ p, decode payload = some p → Matched shown related (first (adjust p)) (second p)) :
    Matched shown related (unmarshalPayload decode raw >>= first)
      (unmarshalPayload decode payload >>= second) := by
  apply matched_bind
  unfold unmarshalPayload
  rw [decoded]
  cases read : decode payload with
  | none => exact Or.inl ⟨_, rfl, rfl⟩
  | some p => exact Or.inr ⟨_, _, rfl, rfl, rest p read⟩

theorem version_moved (version moved : UInt64) : version + moved + 1 = version + 1 + moved := by
  rw [UInt64.add_assoc, UInt64.add_comm moved, ← UInt64.add_assoc]

theorem matched_versions {version expected moved : UInt64}
    {related : AppState → AppState → Prop} {first second firstElse secondElse : ApplyResult}
    (stale : Matched shown related first second)
    (current : Matched shown related firstElse secondElse) :
    Matched shown related (if version + moved ≠ expected + moved then first else firstElse)
      (if version ≠ expected then second else secondElse) := by
  by_cases same : version = expected
  · rw [same, if_neg (not_not.mpr rfl), if_neg (not_not.mpr rfl)]
    exact current
  · rw [if_pos same, if_pos fun equal => same (UInt64.add_left_inj _ |>.mp equal)]
    exact stale

theorem renamed_putPolicy {l r : Policy}
    (renamed : Renamed id since left right) (alike : l.Renames (shift id r.id) r)
    (levels : ∀ subject, Option.Rel (Level since (some r)) (left.tokenBucket r.id subject)
      (right.tokenBucket r.id subject)) :
    Renamed id since
      { left with policies := left.policies.put (bytesOf r.id) l }
      { right with policies := right.policies.put (bytesOf r.id) r } := by
  have storedLeft := getPolicy_put left l r.id
  have storedRight := getPolicy_put right r r.id
  refine ⟨?_, ?_, renamed.clients, renamed.prefixes, ?_, renamed.records⟩
  · intro other
    refine (congrArg₂ (Option.Rel _) (storedLeft other) (storedRight other)).mpr ?_
    split
    · rename_i same
      exact Option.Rel.some (same ▸ alike)
    · exact renamed.policies other
  · intro absent
    replace absent := (storedRight id).symm.trans absent
    split at absent
    · cases absent
    · exact renamed.present absent
  · intro policyID subject
    have stored := storedRight policyID
    split at stored
    · rename_i same
      subst same
      exact (congrArg (fun policy => Option.Rel (Level since policy) _ _) stored).mpr
        (levels subject)
    · exact (congrArg (fun policy => Option.Rel (Level since policy) _ _) stored).mpr
        (renamed.buckets policyID subject)

theorem edit_renamed {l r : Policy} {one two : Result} {index : Nat} {first second : AuditEvent}
    (renamed : Renamed id since left right) (hidden : ¬shown) (alike : l.Renames (shift id r.id) r)
    (levels : ∀ subject, Option.Rel (Level since (some r)) (left.tokenBucket r.id subject)
      (right.tokenBucket r.id subject)) :
    Matched shown (Renamed id since)
      (storing (left.putPolicy l) >>= fun stored => .ok (one, stored.putAudit index first))
      (storing (right.putPolicy r) >>= fun stored => .ok (two, stored.putAudit index second)) := by
  have stored := renamed_putPolicy renamed alike levels
  obtain ⟨name, ts, rfl⟩ := alike
  refine matched_put left.policies right.policies _ _ _ (matched_hidden hidden ?_)
  exact (renamed_uniform id since).putAudit stored _ _

theorem setPolicyActive_renamed {raw : Bytes} (renamed : Renamed id since left right)
    (keyed : Keyed right) (hidden : ¬shown)
    (decoded : lib.setPolicyActive raw =
      (lib.setPolicyActive cmd.payload).map (SetPolicyActivePayload.adjusted id)) :
    Matched shown (Renamed id since) (applySetPolicyActive lib ctx { cmd with payload := raw } left)
      (applySetPolicyActive lib ctx cmd right) := by
  refine matched_adjusted decoded fun p _ => ?_
  rcases rel_cases (renamed.policies p.id) with ⟨one, two⟩ | ⟨_, old, one, two, name, ts, rfl⟩
  · rw [show (p.adjusted id).id = p.id from rfl, one, two]
    exact matched_ok renamed
  · obtain ⟨own, _⟩ := keyed_getPolicy keyed two
    rw [show (p.adjusted id).id = p.id from rfl, one, two]
    refine matched_versions (matched_ok renamed) ?_
    refine edit_renamed renamed hidden ⟨name, cmd.timestampMS, ?_⟩ fun subject => ?_
    · simp only [SetPolicyActivePayload.policy, own, version_moved]
      rfl
    · have before := renamed.buckets p.id subject
      rw [two, ← own] at before
      exact before

theorem converting_renamed {p : UpdatePolicyPayload} {l old : Policy} {moved : UInt64} {ts : Int64}
    (renamed : Renamed id since left right) (keyedLeft : Keyed left) (keyedRight : Keyed right)
    (late : since ≤ ts) (one : left.getPolicy p.id = some l) (two : right.getPolicy p.id = some old)
    (alike : l.Renames moved old) :
    ∃ visitedLeft convertedLeft visitedRight convertedRight,
      left.forEachTokenBucketByPolicy p.id = .ok visitedLeft ∧
      writeBuckets left (visitedLeft.map fun item => convertBucket l (p.adjusted id) ts item.2) =
        .ok convertedLeft ∧
      right.forEachTokenBucketByPolicy p.id = .ok visitedRight ∧
      writeBuckets right (visitedRight.map fun item => convertBucket old p ts item.2) =
        .ok convertedRight ∧
      Renamed id since convertedLeft convertedRight ∧
      ∀ policy subject, Option.Rel (Level since policy) (convertedLeft.tokenBucket p.id subject)
        (convertedRight.tokenBucket p.id subject) := by
  have again : left.getPolicy (p.adjusted id).id = some l := one
  obtain ⟨visitedLeft, convertedLeft, walkedLeft, writtenLeft⟩ :=
    converting_returns keyedLeft again ts
  obtain ⟨visitedRight, convertedRight, walkedRight, writtenRight⟩ :=
    converting_returns keyedRight two ts
  have bucketLeft : ∀ policyID subject, convertedLeft.tokenBucket policyID subject =
      (left.tokenBucket policyID subject).map fun b =>
        if policyID = p.id then convertBucket l (p.adjusted id) ts b else b :=
    converted_tokenBucket (keyed_ownKeys keyedLeft) walkedLeft writtenLeft
  have bucketRight := converted_tokenBucket (keyed_ownKeys keyedRight) walkedRight writtenRight
  have levels : ∀ policy subject, Option.Rel (Level since policy)
      (convertedLeft.tokenBucket p.id subject) (convertedRight.tokenBucket p.id subject) := by
    intro policy subject
    have before := renamed.buckets p.id subject
    rw [two] at before
    obtain ⟨_, _, rfl⟩ := alike
    rw [bucketLeft, bucketRight]
    rcases rel_cases before with ⟨first, second⟩ | ⟨a, b, first, second, level⟩
    · rw [first, second]
      exact Option.Rel.none
    · rw [first, second, Option.map_some, Option.map_some]
      refine Option.Rel.some (level_balance ?_ policy)
      rw [if_pos rfl, if_pos rfl]
      exact convertBucket_congr p (level ts late)
  refine ⟨visitedLeft, convertedLeft, visitedRight, convertedRight, walkedLeft, writtenLeft,
    walkedRight, writtenRight, ?_, levels⟩
  rw [writeBuckets_frame writtenLeft] at bucketLeft levels ⊢
  rw [writeBuckets_frame writtenRight] at bucketRight levels ⊢
  refine ⟨renamed.policies, renamed.present, renamed.clients, renamed.prefixes, ?_,
    renamed.records⟩
  intro policyID subject
  by_cases same : policyID = p.id
  · subst same
    exact levels _ subject
  · rw [bucketLeft, bucketRight]
    simp only [if_neg same, Option.map_id_fun', id_eq]
    exact renamed.buckets policyID subject

theorem updatePolicy_renamed {raw : Bytes} (renamed : Renamed id since left right)
    (keyedLeft : Keyed left) (keyedRight : Keyed right) (late : since ≤ cmd.timestampMS)
    (hidden : ¬shown)
    (decoded : lib.updatePolicy raw =
      (lib.updatePolicy cmd.payload).map (UpdatePolicyPayload.adjusted id)) :
    Matched shown (Renamed id since) (applyUpdatePolicy lib ctx { cmd with payload := raw } left)
      (applyUpdatePolicy lib ctx cmd right) := by
  refine matched_adjusted decoded fun p _ => ?_
  rcases rel_cases (renamed.policies p.id) with ⟨one, two⟩ | ⟨l, old, one, two, alike⟩
  · rw [show (p.adjusted id).id = p.id from rfl, one, two]
    exact matched_ok renamed
  · obtain ⟨own, _⟩ := keyed_getPolicy keyedRight two
    obtain ⟨visitedLeft, convertedLeft, visitedRight, convertedRight, walkedLeft, writtenLeft,
      walkedRight, writtenRight, same, levels⟩ :=
      converting_renamed renamed keyedLeft keyedRight late one two alike
    obtain ⟨title, updatedAtMS, rfl⟩ := alike
    rw [show (p.adjusted id).id = p.id from rfl, one, two]
    refine matched_versions (matched_ok renamed) ?_
    refine matched_validated renamed fun name _ => ?_
    refine matched_validated renamed fun _ _ => ?_
    apply matched_bind
    refine Or.inr ⟨visitedLeft, visitedRight, wrapped_ok walkedLeft, wrapped_ok walkedRight, ?_⟩
    apply matched_bind
    refine Or.inr ⟨convertedLeft, convertedRight, wrapped_ok writtenLeft,
      wrapped_ok writtenRight, ?_⟩
    refine edit_renamed same hidden ⟨name, cmd.timestampMS, ?_⟩ fun subject => ?_
    · simp only [UpdatePolicyPayload.policy, own, version_moved]
      rfl
    · have converted := levels (some (p.policy old name cmd.timestampMS)) subject
      rw [← own] at converted
      exact converted

theorem authorize_renamed (renamed : Renamed id since left right) (p : DecidePayload) :
    (∃ refusal, authorize left p = .error refusal ∧ authorize right p = .error refusal) ∨
      ∃ l r, authorize left p = .ok l ∧ authorize right p = .ok r ∧
        l.Renames (shift id p.policyID) r := by
  unfold authorize
  rw [uniform_getClient (renamed_uniform id since) renamed]
  cases right.getClient p.clientID with
  | none => exact Or.inl ⟨_, rfl, rfl⟩
  | some client =>
      simp only
      by_cases revoked : !client.active
      · rw [if_pos revoked, if_pos revoked]
        exact Or.inl ⟨_, rfl, rfl⟩
      by_cases forbidden : !client.allowsPolicy p.policyID
      · rw [if_neg revoked, if_neg revoked, if_pos forbidden, if_pos forbidden]
        exact Or.inl ⟨_, rfl, rfl⟩
      rw [if_neg revoked, if_neg revoked, if_neg forbidden, if_neg forbidden]
      rcases rel_cases (renamed.policies p.policyID) with
        ⟨one, two⟩ | ⟨_, r, one, two, name, ts, rfl⟩
      · rw [one, two]
        exact Or.inl ⟨_, rfl, rfl⟩
      · rw [one, two]
        simp only
        by_cases inactive : !r.active
        · rw [if_pos inactive, if_pos inactive]
          exact Or.inl ⟨_, rfl, rfl⟩
        by_cases dear : p.cost > r.maxCostTokens
        · rw [if_neg inactive, if_neg inactive, if_pos dear, if_pos dear]
          exact Or.inl ⟨_, rfl, rfl⟩
        · rw [if_neg inactive, if_neg inactive, if_neg dear, if_neg dear]
          exact Or.inr ⟨_, r, rfl, rfl, name, ts, rfl⟩

theorem loaded_level {l r : Policy} {moved : UInt64} {subject : String} {now : Int64}
    {a b : TokenBucketState} (renamed : Renamed id since left right) (late : since ≤ now)
    (bounded : r.Bounded) (two : right.getPolicy r.id = some r) (alike : l.Renames moved r)
    (first : loadOrInitBucket left l subject now = .ok a)
    (second : loadOrInitBucket right r subject now = .ok b) :
    (refillBucket a r.capacityTokens r.refillTokens r.refillIntervalMS now).balance =
      (refillBucket b r.capacityTokens r.refillTokens r.refillIntervalMS now).balance := by
  have kept : l.Bounded ∧ l.id = r.id ∧ l.capacityTokens = r.capacityTokens := by
    obtain ⟨name, ts, rfl⟩ := alike
    exact ⟨bounded, rfl, rfl⟩
  obtain ⟨boundedLeft, named, capacity⟩ := kept
  have leftCases := loadOrInitBucket_cases boundedLeft first
  have rightCases := loadOrInitBucket_cases bounded second
  rw [named, capacity] at leftCases
  have before := renamed.buckets r.id subject
  rw [two] at before
  rcases rel_cases before with ⟨one, absent⟩ | ⟨storedLeft, storedRight, one, present, level⟩
  · simp only [one, reduceCtorEq, true_and, false_or] at leftCases
    simp only [absent, reduceCtorEq, true_and, false_or] at rightCases
    obtain ⟨_, _, _, fullLeft⟩ := leftCases
    obtain ⟨_, _, _, fullRight⟩ := rightCases
    exact refillBucket_congr (fullLeft.trans fullRight.symm) _ _ _ _
  · simp only [one, Option.some.injEq, reduceCtorEq, false_and, or_false] at leftCases
    simp only [present, Option.some.injEq, reduceCtorEq, false_and, or_false] at rightCases
    subst leftCases rightCases
    exact level now late

theorem settle_congr {l r : Policy} {moved : UInt64} {p : DecidePayload} {a b : TokenBucketState}
    (alike : l.Renames moved r)
    (same : (refillBucket a r.capacityTokens r.refillTokens r.refillIntervalMS
        cmd.timestampMS).balance =
      (refillBucket b r.capacityTokens r.refillTokens r.refillIntervalMS cmd.timestampMS).balance) :
    (settle ctx cmd p l a).2 = (settle ctx cmd p r b).2 ∧
      (settle ctx cmd p l a).1.balance = (settle ctx cmd p r b).1.balance := by
  obtain ⟨name, ts, rfl⟩ := alike
  simp only [settle]
  generalize refillBucket a r.capacityTokens r.refillTokens r.refillIntervalMS cmd.timestampMS =
    refilledLeft at same ⊢
  generalize refillBucket b r.capacityTokens r.refillTokens r.refillIntervalMS cmd.timestampMS =
    refilledRight at same ⊢
  obtain ⟨answers, balances⟩ := spend_congr same p.cost r.refillTokens r.refillIntervalMS
  exact ⟨answers, balances⟩

theorem charge_renamed {p : DecidePayload} {l r : Policy} (renamed : Renamed id since left right)
    (keyedLeft : Keyed left) (keyedRight : Keyed right) (late : since ≤ cmd.timestampMS)
    (subject : validateSubject p.subject = .ok ()) (two : right.getPolicy p.policyID = some r)
    (alike : l.Renames (shift id p.policyID) r) :
    Matched shown (Renamed id since) (charge lib ctx cmd left p l)
      (charge lib ctx cmd right p r) := by
  obtain ⟨own, shape, bounded⟩ := keyed_getPolicy keyedRight two
  have named : l.id = r.id := by
    obtain ⟨_, _, rfl⟩ := alike
    rfl
  obtain ⟨a, first⟩ : ∃ a, loadOrInitBucket left l p.subject cmd.timestampMS = .ok a :=
    loadOrInitBucket_returns (named ▸ shape) subject
  obtain ⟨b, second⟩ : ∃ b, loadOrInitBucket right r p.subject cmd.timestampMS = .ok b :=
    loadOrInitBucket_returns shape subject
  have settled : (settle ctx cmd p l a).2 = (settle ctx cmd p r b).2 ∧
      (settle ctx cmd p l a).1.balance = (settle ctx cmd p r b).1.balance :=
    settle_congr alike (loaded_level renamed late bounded (own.symm ▸ two) alike first second)
  obtain ⟨ownerLeft, holderLeft⟩ := loadOrInitBucket_owner (keyed_ownKeys keyedLeft) first
  obtain ⟨ownerRight, holderRight⟩ := loadOrInitBucket_owner (keyed_ownKeys keyedRight) second
  refine matched_bind (Or.inr ⟨a, b, wrapped_ok first, wrapped_ok second, ?_⟩)
  rcases spentLeft : settle ctx cmd p l a with ⟨settledLeft, rest⟩
  rcases spentRight : settle ctx cmd p r b with ⟨settledRight, _⟩
  rw [spentLeft, spentRight] at settled
  obtain ⟨rfl, balances⟩ := settled
  obtain ⟨keptLeft, namedLeft⟩ := settle_owner spentLeft
  obtain ⟨keptRight, namedRight⟩ := settle_owner spentRight
  have record : decisionRecord lib ctx cmd p settledLeft rest.1 rest.2 =
      decisionRecord lib ctx cmd p settledRight rest.1 rest.2 := by
    rw [decisionRecord, (balance_parts balances).1]
    rfl
  have putLeft : putBucket left settledLeft = left.putTokenBucket r.id p.subject settledLeft := by
    rw [putBucket, keptLeft, ownerLeft, named, namedLeft, holderLeft]
  have putRight : putBucket right settledRight =
      right.putTokenBucket r.id p.subject settledRight := by
    rw [putBucket, keptRight, ownerRight, namedRight, holderRight]
  change Matched _ _ (storing (putBucket left settledLeft) >>= _)
    (storing (putBucket right settledRight) >>= _)
  rw [putLeft, putRight, record]
  refine matched_store ((putPair_alike left.tokenBuckets right.tokenBuckets _ _ _ _).imp_right ?_)
  rintro ⟨bucketsLeft, bucketsRight, chargedLeft, chargedRight⟩
  refine ⟨bucketsLeft, bucketsRight, chargedLeft, chargedRight, ?_⟩
  refine matched_store ((putPair_alike left.idempotency right.idempotency _ _ _ _).imp_right ?_)
  rintro ⟨recordsLeft, recordsRight, recordedLeft, recordedRight⟩
  refine ⟨recordsLeft, recordsRight, recordedLeft, recordedRight, ?_⟩
  rw [renamed.records] at recordedLeft
  refine matched_audited (renamed_uniform id since) ⟨renamed.policies, renamed.present,
    renamed.clients, renamed.prefixes, ?_, Except.ok.inj (recordedLeft.symm.trans recordedRight)⟩
  intro policyID holder
  refine (congrArg₂ (Option.Rel _) (lookupPair_stored chargedLeft policyID holder)
    (lookupPair_stored chargedRight policyID holder)).mpr ?_
  split
  · exact Option.Rel.some (level_balance balances _)
  · exact renamed.buckets policyID holder

theorem decide_renamed (renamed : Renamed id since left right) (keyedLeft : Keyed left)
    (keyedRight : Keyed right) (late : since ≤ cmd.timestampMS) :
    Matched shown (Renamed id since) (applyDecide lib ctx cmd left)
      (applyDecide lib ctx cmd right) := by
  refine matched_unmarshal fun p _ => ?_
  refine matched_validated renamed fun _ accepted => ?_
  obtain ⟨_, subject, _⟩ := validateDecisionInput_parts accepted
  have looked : left.getIdempotency p.clientID p.requestID =
      right.getIdempotency p.clientID p.requestID := by
    rw [AppState.getIdempotency, renamed.records]
    rfl
  rw [looked]
  cases right.getIdempotency p.clientID p.requestID with
  | error error => exact Or.inl ⟨.store error, rfl, rfl⟩
  | ok found =>
      refine matched_bind (Or.inr ⟨found, found, rfl, rfl, ?_⟩)
      cases found with
      | some prior => exact matched_ite (matched_ok renamed) fun _ => matched_ok renamed
      | none =>
          rcases authorize_renamed renamed p with ⟨refusal, one, two⟩ | ⟨l, r, one, two, alike⟩
          · rw [one, two]
            exact matched_ok renamed
          · rw [one, two]
            exact charge_renamed renamed keyedLeft keyedRight late subject (authorize_ok two).1 alike

theorem prune_renamed (renamed : Renamed id since left right) (hidden : ¬shown) :
    Matched shown (Renamed id since) (applyPrune lib cmd left) (applyPrune lib cmd right) := by
  have expired : expiredKeys left cmd.timestampMS = expiredKeys right cmd.timestampMS := by
    rw [expiredKeys, renamed.records]
    rfl
  refine matched_unmarshal fun p _ => ?_
  simp only [foldl_deleteIdempotency, foldl_deleteAudit]
  refine matched_hidden hidden ⟨renamed.policies, renamed.present, renamed.clients,
    renamed.prefixes, renamed.buckets, ?_⟩
  simp only [expired, renamed.records]

end Handlers

section Runs

variable {lib : Stdlib} {ctx : ApplyContext} {id : String} {since : Int64}

theorem command_renamed {one two : Command} {left right : AppState}
    (adjusted : one.Adjusted lib id two) (late : since ≤ one.timestampMS)
    (renamed : Renamed id since left right) (keyedLeft : Keyed left) (keyedRight : Keyed right) :
    Matched (one.type = .decide) (Renamed id since) (applyTx lib ctx one left)
      (applyTx lib ctx two right) := by
  cases adjusted with
  | update _ payload typed decoded =>
      simp only [applyTx, typed]
      exact updatePolicy_renamed renamed keyedLeft keyedRight late (by simp) decoded
  | switch _ payload typed decoded =>
      simp only [applyTx, typed]
      exact setPolicyActive_renamed renamed keyedRight (by simp) decoded
  | same _ keeps running =>
      unfold applyTx
      cases typed : one.type with
      | createPolicy => exact createPolicy_matched (renamed_uniform _ _) renamed
      | updatePolicy => exact absurd typed keeps
      | setPolicyActive => exact absurd typed running
      | createClient => exact createClient_matched (renamed_uniform _ _) renamed
      | revokeClient => exact revokeClient_matched (renamed_uniform _ _) renamed
      | decide => exact decide_renamed renamed keyedLeft keyedRight late
      | prune => exact prune_renamed renamed (by simp)
      | unknown name => exact Or.inl ⟨.unknownCommand name, rfl, rfl⟩

structure Siblings (id : String) (since : Int64) (left right : Nat × AppState) : Prop where
  first : Keyed left.2
  second : Keyed right.2
  renamed : Renamed id since left.2 right.2

theorem siblings_step {one two : LogEntry} {left right : Nat × AppState}
    (adjusts : Adjusts lib id one two)
    (late : ∀ cmd, one.kind = .command → lib.command one.command = some cmd →
      since ≤ cmd.timestampMS) (siblings : Siblings id since left right) :
    Siblings id since (applyNext lib left one).2 (applyNext lib right two).2 ∧
      ((decideOf lib one).isSome → (applyNext lib left one).1 = (applyNext lib right two).1) := by
  obtain ⟨first, second, renamed⟩ := siblings
  have matched : ∀ cmd other, one.kind = .command → lib.command one.command = some cmd →
      cmd.Adjusted lib id other → Matched (cmd.type = .decide) (Renamed id since)
        (applyTx lib ⟨one.index, one.term⟩ cmd left.2)
        (applyTx lib ⟨one.index, one.term⟩ other right.2) := by
    intro cmd other kind read adjusted
    exact command_renamed adjusted (late cmd kind read) renamed first second
  obtain ⟨kept, answered⟩ := applyNext_matched adjusts.index adjusts.term adjusts.kind
    adjusts.command matched renamed
  refine ⟨⟨?_, ?_, kept⟩, fun asked => ?_⟩
  · exact applyNext_keeps Keyed (fun _ _ _ _ _ effect => keyed_effect first effect) first
  · exact applyNext_keeps Keyed (fun _ _ _ _ _ effect => keyed_effect second effect) second
  · obtain ⟨p, asked⟩ := Option.isSome_iff_exists.mp asked
    obtain ⟨cmd, _, read, typed, _⟩ := decideOf_some asked
    exact answered ⟨cmd, read, typed⟩

structure RenamesOnly (lib : Stdlib) (app : AppState) (entry : LogEntry) (cmd : Command)
    (p : UpdatePolicyPayload) : Prop where
  kind : entry.kind = .command
  read : lib.command entry.command = some cmd
  typed : cmd.type = .updatePolicy
  payload : lib.updatePolicy cmd.payload = some p
  numbers : ∀ old ∈ app.getPolicy p.id, p.capacityTokens = old.capacityTokens ∧
    p.refillTokens = old.refillTokens ∧ p.refillIntervalMS = old.refillIntervalMS ∧
    p.maxCostTokens = old.maxCostTokens

theorem updated_renamed {cmd : Command} {p : UpdatePolicyPayload} {app after : AppState}
    {result : Result} (keyed : Keyed app) (funded : Funded app)
    (numbers : ∀ old ∈ app.getPolicy p.id, p.capacityTokens = old.capacityTokens ∧
      p.refillTokens = old.refillTokens ∧ p.refillIntervalMS = old.refillIntervalMS ∧
      p.maxCostTokens = old.maxCostTokens)
    (payload : lib.updatePolicy cmd.payload = some p) (typed : cmd.type = .updatePolicy)
    (effect : Effect lib ctx cmd app result after) (applied : result.outcome = .applied) :
    Renamed p.id cmd.timestampMS after app := by
  -- refilling early, at the time of the update, is not seen from then on
  obtain ⟨old, name, visited, tokenBuckets, audit, found, walked, written, rfl⟩ :=
    effect_update effect typed payload (by rw [applied]; decide)
  obtain ⟨capacity, refill, interval, cost⟩ := numbers old found
  obtain ⟨own, _, bounded⟩ := keyed_getPolicy keyed found
  have buckets := converted_tokenBucket (keyed_ownKeys keyed) walked written
  have stored := getPolicy_put app (p.policy old name cmd.timestampMS) old.id
  refine ⟨?_, by simp [found], rfl, rfl, ?_, rfl⟩
  · intro other
    refine (congrArg (Option.Rel _ · _) (stored other)).mpr ?_
    rw [own, shift]
    split
    · rename_i same
      rw [same, found]
      refine Option.Rel.some ⟨name, cmd.timestampMS, ?_⟩
      rw [UpdatePolicyPayload.policy, capacity, refill, interval, cost]
    · cases app.getPolicy other with
      | none => exact Option.Rel.none
      | some policy =>
          refine Option.Rel.some ⟨policy.name, policy.updatedAtMS, ?_⟩
          rw [UInt64.add_zero]
  · intro policyID subject
    refine (congrArg (Option.Rel _ · _) (buckets policyID subject)).mpr ?_
    cases present : app.tokenBucket policyID subject with
    | none => exact Option.Rel.none
    | some b =>
        refine Option.Rel.some ?_
        split
        · rename_i same
          rw [same, found]
          intro now late
          have valid := funded policyID subject b present
          have latest : max cmd.timestampMS now = now := if_pos late
          rw [refillBucket_congr (convertBucket_kept bounded valid capacity interval),
            refillBucket_twice bounded valid, latest]
        · exact level_balance rfl _

/-- An update that changes nothing but the name of a policy is not seen by decisions. From
any store that commands at times from zero on reach, apply the update, or a no-op in its
place, and then a log whose commands are not before it; where the log edits the policy, the
expected versions count the update in. Every decide is answered alike in both runs. -/
theorem rename_unseen (lib : Stdlib) (commands : List (ApplyContext × Command))
    (timed : ∀ command ∈ commands, 0 ≤ command.2.timestampMS.toInt)
    (start : Nat × AppState) (reached : start = finish lib (0, AppState.migrated) commands)
    (entry : LogEntry) (cmd : Command) (p : UpdatePolicyPayload)
    (renames : RenamesOnly lib start.2 entry cmd p) (result : Result)
    (answered : (applyNext lib start entry).1 = .ok result) (applied : result.outcome = .applied)
    (later adjusted : List LogEntry) (pairs : List.Forall₂ (Adjusts lib p.id) later adjusted)
    (late : ∀ other ∈ later, ∀ command, other.kind = .command →
      lib.command other.command = some command → cmd.timestampMS ≤ command.timestampMS)
    (position : Nat) (other : LogEntry) (found : later[position]? = some other)
    (asked : (decideOf lib other).isSome) :
    ∃ answer,
      (TwoRuns.answers (applyNext lib) start (entry :: later))[position + 1]? = some answer ∧
      (TwoRuns.answers (applyNext lib) start
        ({ entry with kind := .noop, command := [] } :: adjusted))[position + 1]? =
          some answer := by
  have keyed : Keyed start.2 := reached ▸ keyed_finish _ commands keyed_migrated
  have funded : Funded start.2 := reached ▸ funded_finish commands timed
  have begin : Siblings p.id cmd.timestampMS (applyNext lib start entry).2
      (applyNext lib start { entry with kind := .noop, command := [] }).2 := by
    have quietly : applyNext lib start { entry with kind := .noop, command := [] } =
        (.ok { outcome := .applied }, entry.index, start.2) := applyNext_quiet start (by simp)
    rw [applyNext_command start renames.kind renames.read] at answered ⊢
    rw [quietly]
    cases ran : applyTx lib ⟨entry.index, entry.term⟩ cmd start.2 with
    | error error =>
        rw [ran] at answered
        cases answered
    | ok next =>
        rw [ran] at answered
        cases answered
        have effect := applyTx_effect ran
        exact ⟨keyed_effect keyed effect, keyed,
          updated_renamed keyed funded renames.numbers renames.payload renames.typed effect applied⟩
  have keeps : ∀ one two, one ∈ later ∧ Adjusts lib p.id one two → ∀ left right,
      Siblings p.id cmd.timestampMS left right →
      Siblings p.id cmd.timestampMS (applyNext lib left one).2 (applyNext lib right two).2 ∧
        ((decideOf lib one).isSome → (applyNext lib left one).1 = (applyNext lib right two).1) :=
    fun one _ pair _ _ siblings => siblings_step pair.2 (late one pair.1) siblings
  have steps := (List.forall₂_and_left later adjusted).mpr ⟨fun _ member => member, pairs⟩
  obtain ⟨same, _⟩ := TwoRuns.matched_run keeps steps begin
  exact same position other found asked

end Runs

section Sample

/-- Seconds, but for the first and the last instant of an `int64`. -/
def sampleInstant (b : UInt8) : Int64 :=
  if b = 254 then Int64.minValue else if b = 255 then Int64.maxValue else sampleAmount b * 1000

def renameLib : Stdlib :=
  { sampleLib with
    command := fun raw =>
      match raw with
      | kind :: instant :: payload =>
          some ⟨1, "", sampleType kind, sampleInstant instant, payload⟩
      | _ => none
    createPolicy := fun raw =>
      match raw with
      | [capacity, refill] =>
          some ⟨"orders", "Orders", sampleAmount capacity, sampleAmount refill, 2000,
            sampleAmount capacity, true⟩
      | _ => none
    updatePolicy := fun raw =>
      match raw with
      | [capacity, refill, version] =>
          some ⟨"orders", "Purchases", sampleAmount capacity, sampleAmount refill, 2000,
            sampleAmount capacity, UInt64.ofNat version.toNat⟩
      | _ => none }

def spentAt (instant : UInt8) : List (ApplyContext × Command) :=
  [[0, instant, 5, 1], [3, instant], [5, instant, 1, 5]].zipIdx 1 |>.filterMap fun item =>
    (renameLib.command item.1).map (⟨item.2, 1⟩, ·)

def renameEntry (instant : UInt8) : LogEntry := ⟨4, 1, .command, [1, instant, 5, 1, 1]⟩

def renamedOrders : UpdatePolicyPayload := ⟨"orders", "Purchases", 5, 1, 2000, 5, 1⟩

/-- Two decisions with an edit of the policy between, which expects the given version. -/
def editedEntries (version : UInt8) : List LogEntry :=
  [⟨5, 1, .command, [5, 4, 2, 1]⟩, ⟨6, 1, .command, [1, 5, 8, 3, version]⟩,
    ⟨7, 1, .command, [5, 7, 3, 2]⟩]

theorem edited_pairs :
    List.Forall₂ (Adjusts renameLib "orders") (editedEntries 2) (editedEntries 1) := by
  have edit : Command.Adjusted renameLib "orders" ⟨1, "", .updatePolicy, 5000, [8, 3, 2]⟩
      ⟨1, "", .updatePolicy, 5000, [8, 3, 1]⟩ := by
    refine .update ⟨1, "", .updatePolicy, 5000, [8, 3, 1]⟩ [8, 3, 2] rfl ?_
    decide +kernel
  refine .cons ⟨rfl, rfl, rfl, ?_⟩ (.cons ⟨rfl, rfl, rfl, ?_⟩ (.cons ⟨rfl, rfl, rfl, ?_⟩ .nil))
  · exact Option.Rel.some (Command.Adjusted.same _ (by decide) (by decide))
  · exact Option.Rel.some edit
  · exact Option.Rel.some (Command.Adjusted.same _ (by decide) (by decide))

theorem rename_unseen_sample : ∃ answer,
    (TwoRuns.answers (applyNext renameLib) (finish renameLib (0, AppState.migrated) (spentAt 1))
      (renameEntry 3 :: editedEntries 2))[3]? = some answer ∧
    (TwoRuns.answers (applyNext renameLib) (finish renameLib (0, AppState.migrated) (spentAt 1))
      (⟨4, 1, .noop, []⟩ :: editedEntries 1))[3]? = some answer := by
  have renames : RenamesOnly renameLib (finish renameLib (0, AppState.migrated) (spentAt 1)).2
      (renameEntry 3) ⟨1, "", .updatePolicy, 3000, [5, 1, 1]⟩ renamedOrders :=
    ⟨rfl, by decide +kernel, rfl, by decide +kernel, by decide +kernel⟩
  obtain ⟨result, answered, applied⟩ : ∃ result, (applyNext renameLib
      (finish renameLib (0, AppState.migrated) (spentAt 1)) (renameEntry 3)).1 = .ok result ∧
      result.outcome = .applied := toOption_ok (by decide +kernel)
  refine rename_unseen renameLib (spentAt 1) (by decide +kernel) _ rfl (renameEntry 3) _ _ renames
    result answered applied (editedEntries 2) (editedEntries 1) edited_pairs ?_ 2
    ⟨7, 1, .command, [5, 7, 3, 2]⟩ rfl (by decide +kernel)
  intro other member command _ read
  simp only [editedEntries, List.mem_cons, List.not_mem_nil, or_false] at member
  rcases member with rfl | rfl | rfl <;> cases read <;> decide

/-- With times before the epoch the time since a refill may not fit an `int64`. A bucket is
emptied at the first instant. At the last it seems to be refilled in the future and is still
empty, but the update in between overflows too and fills it. -/
theorem rename_seen_wrapped :
    RenamesOnly renameLib (finish renameLib (0, AppState.migrated) (spentAt 254)).2
      (renameEntry 0) ⟨1, "", .updatePolicy, 0, [5, 1, 1]⟩ renamedOrders ∧
    ((spentAt 254).map (·.2.timestampMS) ++ [0, Int64.maxValue]).Pairwise (· ≤ ·) ∧
    ((finish renameLib (0, AppState.migrated) (spentAt 254)).2.tokenBucket "orders" "alice").map
      TokenBucketState.lastRefillMS = some Int64.minValue ∧
    (TwoRuns.answers (applyNext renameLib) (finish renameLib (0, AppState.migrated) (spentAt 254))
      [renameEntry 0, ⟨5, 1, .command, [5, 255, 2, 1]⟩]).map
        (fun answer => answer.toOption.map Result.outcome) = [some .applied, some .allowed] ∧
    (TwoRuns.answers (applyNext renameLib) (finish renameLib (0, AppState.migrated) (spentAt 254))
      [⟨4, 1, .noop, []⟩, ⟨5, 1, .command, [5, 255, 2, 1]⟩]).map
        (fun answer => answer.toOption.map Result.outcome) = [some .applied, some .denied] := by
  refine ⟨⟨rfl, by decide +kernel, rfl, by decide +kernel, by decide +kernel⟩, ?_, ?_, ?_, ?_⟩ <;>
    decide +kernel

end Sample

end QuorumLimiter.Limiter
