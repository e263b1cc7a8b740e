import QuorumLimiter.Limiter.Keys

/-!
What the records of a store say of each other: each carries the identity of its key,
and the policies and clients it names exist. Policies and clients are never removed, so
what was named once stays. No timestamp matters.
-/

namespace QuorumLimiter.Limiter

section Growing

structure Grows (app after : AppState) : Prop where
  policies : ∀ id, (app.getPolicy id).isSome → (after.getPolicy id).isSome
  clients : ∀ id, (app.getClient id).isSome → (after.getClient id).isSome

variable {lib : Stdlib} {ctx : ApplyContext} {cmd : Command} {app after : AppState}
  {result : Result}

theorem effect_grows (effect : Effect lib ctx cmd app result after) : Grows app after := by
  cases effect with
  | createdPolicy p name typed payload shape named bounds absent =>
      exact ⟨fun _ => Bucket.get_put_isSome _ _, fun _ => id⟩
  | updatedPolicy p old name visited tokenBuckets typed payload found current named bounds walked
      written => exact ⟨fun _ => Bucket.get_put_isSome _ _, fun _ => id⟩
  | switchedPolicy p old typed payload found current =>
      exact ⟨fun _ => Bucket.get_put_isSome _ _, fun _ => id⟩
  | createdClient p name typed payload named listed filled absent free existing =>
      exact ⟨fun _ => id, fun _ => Bucket.get_put_isSome _ _⟩
  | revokedClient p old typed payload found active =>
      exact ⟨fun _ => id, fun _ => Bucket.get_put_isSome _ _⟩
  | _ => exact ⟨fun _ => id, fun _ => id⟩

theorem finish_grows (state : Nat × AppState) (commands : List (ApplyContext × Command)) :
    Grows state.2 (finish lib state commands).2 := by
  apply finish_keeps (Grows state.2) state
  · intro command member app result after grows effect
    have next := effect_grows effect
    exact ⟨fun id found => next.policies id (grows.policies id found),
      fun id found => next.clients id (grows.clients id found)⟩
  · exact ⟨fun _ => id, fun _ => id⟩

end Growing

structure Coherent (app : AppState) : Prop where
  keyed : Keyed app
  buckets : ∀ key b, app.tokenBuckets.get key = some b → (app.getPolicy b.policyID).isSome
  records : ∀ key d, app.idempotency.get key = some d →
    compositeKey [bytesOf d.clientID, bytesOf d.requestID] = .ok key ∧
      (app.getPolicy d.policyID).isSome ∧ (app.getClient d.clientID).isSome
  allowed : ∀ key client, app.clients.get key = some client → client.allowedPolicyIDs ≠ ["*"] →
    ∀ id ∈ client.allowedPolicyIDs, (app.getPolicy id).isSome
  audits : ∀ index event, app.audit.get index = some event → event.logIndex = index

theorem coherent_migrated : Coherent AppState.migrated := by
  refine ⟨keyed_migrated, ?_, ?_, ?_, ?_⟩ <;> intro key value found <;> cases found

section Steps

variable {lib : Stdlib} {ctx : ApplyContext} {cmd : Command} {app after : AppState}
  {result : Result}

theorem missingPolicy_none {ids : List String} (complete : missingPolicy app ids = none)
    (listed : ids ≠ ["*"]) : ∀ id ∈ ids, (app.getPolicy id).isSome := by
  intro id member
  rw [missingPolicy, if_neg listed, List.find?_eq_none] at complete
  simpa [Option.isSome_iff_ne_none] using complete id member

theorem buckets_effect (coherent : Coherent app) (effect : Effect lib ctx cmd app result after)
    (key : Bytes) (b : TokenBucketState) (stored : after.tokenBuckets.get key = some b) :
    (after.getPolicy b.policyID).isSome := by
  have grows := effect_grows effect
  cases effect with
  | updatedPolicy p old name visited tokenBuckets typed payload found current named bounds walked
      written =>
      obtain ⟨before, present, change⟩ :=
        converted_inv (keyed_ownKeys coherent.keyed) walked written stored
      apply grows.policies
      rcases change with ⟨_, rfl⟩ | ⟨_, rfl⟩
      · rw [convertBucket_policyID]
        exact coherent.buckets key before present
      · exact coherent.buckets key b present
  | charged p policy bucket settled allowed retryAfter tokenBuckets idempotency typed payload shape
      fresh authorized loaded spent charged recorded =>
      obtain ⟨found, _⟩ := authorize_ok authorized
      obtain ⟨own, _⟩ := keyed_getPolicy coherent.keyed found
      obtain ⟨owner, _⟩ := loadOrInitBucket_owner (keyed_ownKeys coherent.keyed) loaded
      obtain ⟨kept, _⟩ := settle_owner spent
      obtain ⟨place, encoded, rfl⟩ := putPair_ok charged
      simp only [Bucket.get_put] at stored
      apply grows.policies
      split at stored
      · cases stored
        rw [kept, owner, own]
        exact Option.isSome_of_eq_some found
      · exact coherent.buckets key b stored
  | _ => exact grows.policies _ (coherent.buckets key b stored)

theorem records_effect (coherent : Coherent app) (effect : Effect lib ctx cmd app result after)
    (key : Bytes) (d : DecisionRecord) (stored : after.idempotency.get key = some d) :
    compositeKey [bytesOf d.clientID, bytesOf d.requestID] = .ok key ∧
      (after.getPolicy d.policyID).isSome ∧ (after.getClient d.clientID).isSome := by
  have grows := effect_grows effect
  have kept : app.idempotency.get key = some d →
      compositeKey [bytesOf d.clientID, bytesOf d.requestID] = .ok key ∧
        (after.getPolicy d.policyID).isSome ∧ (after.getClient d.clientID).isSome := by
    intro present
    obtain ⟨own, policy, client⟩ := coherent.records key d present
    exact ⟨own, grows.policies _ policy, grows.clients _ client⟩
  cases effect with
  | charged p policy bucket settled allowed retryAfter tokenBuckets idempotency typed payload shape
      fresh authorized loaded spent charged recorded =>
      obtain ⟨found, _, _, client, known, _⟩ := authorize_ok authorized
      obtain ⟨place, encoded, rfl⟩ := putPair_ok recorded
      simp only [Bucket.get_put] at stored
      split at stored
      · rename_i same
        cases stored
        exact ⟨same ▸ encoded, Option.isSome_of_eq_some found, Option.isSome_of_eq_some known⟩
      · exact kept stored
  | pruned p typed payload =>
      simp only [Bucket.get_foldl_delete] at stored
      split at stored
      · contradiction
      · exact kept stored
  | _ => exact kept stored

theorem allowed_effect (coherent : Coherent app) (effect : Effect lib ctx cmd app result after)
    (key : Bytes) (client : Client) (stored : after.clients.get key = some client)
    (listed : client.allowedPolicyIDs ≠ ["*"]) :
    ∀ id ∈ client.allowedPolicyIDs, (after.getPolicy id).isSome := by
  intro id member
  have grows := effect_grows effect
  cases effect with
  | createdClient p name typed payload named valid filled absent free existing =>
      simp only [Bucket.get_put] at stored
      split at stored
      · cases stored
        exact missingPolicy_none existing listed id member
      · exact coherent.allowed key client stored listed id member
  | revokedClient p old typed payload found active =>
      simp only [Bucket.get_put] at stored
      split at stored
      · cases stored
        exact coherent.allowed _ old found listed id member
      · exact coherent.allowed key client stored listed id member
  | _ => exact grows.policies id (coherent.allowed key client stored listed id member)

theorem audits_effect (effect : Effect lib ctx cmd app result after) (index : Nat)
    (event : AuditEvent) (stored : after.audit.get index = some event) :
    app.audit.get index = some event ∨ index = ctx.logIndex ∧ event.logIndex = index := by
  have written : ∀ new : AuditEvent, new.logIndex = ctx.logIndex →
      (app.audit.put ctx.logIndex new).get index = some event →
      app.audit.get index = some event ∨ index = ctx.logIndex ∧ event.logIndex = index := by
    intro new own present
    rw [Bucket.get_put] at present
    split at present
    · rename_i same
      cases present
      exact Or.inr ⟨same, own.trans same.symm⟩
    · exact Or.inl present
  cases effect with
  | createdPolicy => exact written _ rfl stored
  | updatedPolicy => exact written _ rfl stored
  | switchedPolicy => exact written _ rfl stored
  | createdClient => exact written _ rfl stored
  | revokedClient => exact written _ rfl stored
  | charged => exact written _ rfl stored
  | pruned p typed payload =>
      simp only [Bucket.get_foldl_delete] at stored
      split at stored
      · contradiction
      · exact Or.inl stored
  | _ => exact Or.inl stored

theorem audited_index (commands : List (ApplyContext × Command)) (index : Nat) (event : AuditEvent)
    (stored : (finish lib (0, AppState.migrated) commands).2.audit.get index = some event) :
    ∃ command ∈ commands, command.1.logIndex = index := by
  refine finish_keeps (fun app => ∀ index event, app.audit.get index = some event →
    ∃ command ∈ commands, command.1.logIndex = index) (0, AppState.migrated) ?_ ?_ index event stored
  · intro command member app result after before effect index event stored
    rcases audits_effect effect index event stored with old | ⟨same, _⟩
    · exact before index event old
    · exact ⟨command, member, same.symm⟩
  · rintro index event ⟨⟩

theorem coherent_effect (coherent : Coherent app) (effect : Effect lib ctx cmd app result after) :
    Coherent after where
  keyed := keyed_effect coherent.keyed effect
  buckets := buckets_effect coherent effect
  records := records_effect coherent effect
  allowed := allowed_effect coherent effect
  audits index event stored := by
    rcases audits_effect effect index event stored with before | ⟨_, own⟩
    · exact coherent.audits index event before
    · exact own

theorem coherent_finish (state : Nat × AppState) (commands : List (ApplyContext × Command))
    (coherent : Coherent state.2) : Coherent (finish lib state commands).2 :=
  finish_keeps Coherent state (fun _ _ _ _ _ coherent effect => coherent_effect coherent effect) coherent

end Steps

/-- Every record of a decision and every event of the trail stems from an applied entry. -/
structure Stamped (last : Nat) (app : AppState) : Prop where
  records : ∀ key d, app.idempotency.get key = some d → 1 ≤ d.logIndex ∧ d.logIndex ≤ last
  audits : ∀ index event, app.audit.get index = some event → 1 ≤ index ∧ index ≤ last

section Stamps

variable {lib : Stdlib} {ctx : ApplyContext} {cmd : Command} {app after : AppState}
  {result : Result} {last : Nat}

theorem stamped_migrated : Stamped 0 AppState.migrated := by
  constructor <;> intro key value found <;> cases found

theorem record_effect (effect : Effect lib ctx cmd app result after) (key : Bytes)
    (d : DecisionRecord) (stored : after.idempotency.get key = some d) :
    app.idempotency.get key = some d ∨ d.logIndex = ctx.logIndex := by
  cases effect with
  | charged p policy bucket settled allowed retryAfter tokenBuckets idempotency typed payload shape
      fresh authorized loaded spent charged recorded =>
      obtain ⟨place, encoded, rfl⟩ := putPair_ok recorded
      simp only [Bucket.get_put] at stored
      split at stored
      · cases stored
        exact Or.inr rfl
      · exact Or.inl stored
  | pruned p typed payload =>
      simp only [Bucket.get_foldl_delete] at stored
      split at stored
      · contradiction
      · exact Or.inl stored
  | _ => exact Or.inl stored

theorem stamped_effect (stamped : Stamped last app) (later : last < ctx.logIndex)
    (effect : Effect lib ctx cmd app result after) : Stamped ctx.logIndex after := by
  constructor
  · intro key d stored
    rcases record_effect effect key d stored with before | same
    · have bounds := stamped.records key d before
      omega
    · omega
  · intro index event stored
    rcases audits_effect effect index event stored with before | ⟨same, _⟩
    · have bounds := stamped.audits index event before
      omega
    · omega

theorem stamped_finish (state : Nat × AppState) (commands : List (ApplyContext × Command))
    (logged : Logged state.1 commands) (stamped : Stamped state.1 state.2) :
    Stamped (finish lib state commands).1 (finish lib state commands).2 := by
  refine logged_keeps (fun _ state => Stamped state.1 state.2) state [] logged ?_ stamped
  intro command member _ before result after later stamped ran
  obtain ⟨index, effect⟩ := apply_effect ran
  rw [index]
  exact stamped_effect stamped later effect

end Stamps

/-- In every store that the commands of a log reach, each record carries the identity of
its key and names policies and clients that exist, and each decision and audit event has
the index of an applied entry; and whatever is applied next removes no policy and no
client. -/
theorem store_coherent (lib : Stdlib) (commands more : List (ApplyContext × Command))
    (logged : Logged 0 commands) (last : Nat) (app : AppState)
    (reached : finish lib (0, AppState.migrated) commands = (last, app)) :
    (∀ key policy, app.policies.get key = some policy → key = bytesOf policy.id) ∧
    (∀ key client, app.clients.get key = some client → key = bytesOf client.id ∧
      (client.allowedPolicyIDs ≠ ["*"] →
        ∀ id ∈ client.allowedPolicyIDs, (app.getPolicy id).isSome)) ∧
    (∀ key b, app.tokenBuckets.get key = some b →
      compositeKey [bytesOf b.policyID, bytesOf b.subject] = .ok key ∧
        (app.getPolicy b.policyID).isSome) ∧
    (∀ key d, app.idempotency.get key = some d →
      compositeKey [bytesOf d.clientID, bytesOf d.requestID] = .ok key ∧
        (app.getPolicy d.policyID).isSome ∧ (app.getClient d.clientID).isSome ∧
        1 ≤ d.logIndex ∧ d.logIndex ≤ last) ∧
    (∀ index event, app.audit.get index = some event →
      event.logIndex = index ∧ 1 ≤ index ∧ index ≤ last) ∧
    Grows app (finish lib (last, app) more).2 := by
  have coherent : Coherent (finish lib (0, AppState.migrated) commands).2 :=
    coherent_finish _ commands coherent_migrated
  have stamped : Stamped (finish lib (0, AppState.migrated) commands).1
      (finish lib (0, AppState.migrated) commands).2 :=
    stamped_finish (0, AppState.migrated) commands logged stamped_migrated
  rw [reached] at coherent stamped
  refine ⟨?_, ?_, ?_, ?_, ?_, finish_grows (last, app) more⟩
  · exact fun key policy stored => (coherent.keyed.policies key policy stored).1
  · exact fun key client stored => ⟨(coherent.keyed.clients key client stored).1,
      coherent.allowed key client stored⟩
  · exact fun key b stored => ⟨keyed_ownKeys coherent.keyed key b stored,
      coherent.buckets key b stored⟩
  · intro key d stored
    obtain ⟨own, policy, client⟩ := coherent.records key d stored
    exact ⟨own, policy, client, stamped.records key d stored⟩
  · exact fun index event stored => ⟨coherent.audits index event stored,
      stamped.audits index event stored⟩

def grantedRun : List (ApplyContext × Command) :=
  sampleCommands 1 [[0, 0, 10, 3], [3, 0], [5, 1, 1, 4]]

theorem store_coherent_sample : ∃ app,
    finish sampleLib (0, AppState.migrated) grantedRun = (3, app) ∧ app.idempotency.pairs.length = 1 ∧
      (∀ key d, app.idempotency.get key = some d →
        compositeKey [bytesOf d.clientID, bytesOf d.requestID] = .ok key ∧ d.logIndex ≤ 3) ∧
      Grows app (finish sampleLib (3, app) grantedRun).2 := by
  have last : (finish sampleLib (0, AppState.migrated) grantedRun).1 = 3 := by decide +kernel
  have records : (finish sampleLib (0, AppState.migrated) grantedRun).2.idempotency.pairs.length = 1 := by
    decide +kernel
  obtain ⟨_, _, _, decisions, _, grows⟩ := store_coherent sampleLib grantedRun grantedRun
    ⟨by decide +kernel, by decide +kernel⟩ 3 _ (Prod.ext last rfl)
  refine ⟨_, Prod.ext last rfl, records, ?_, grows⟩
  intro key d stored
  obtain ⟨own, _, _, _, below⟩ := decisions key d stored
  exact ⟨own, below⟩

end QuorumLimiter.Limiter
