import QuorumLimiter.Limiter.StateMachine

/-!
Everything a command can do. `Effect` lists the ways one returns without a Go
error, each with what it checked and what it wrote; facts about runs are proved by
cases on it.
-/

namespace QuorumLimiter.Limiter

inductive Effect (lib : Stdlib) (ctx : ApplyContext) (cmd : Command) (app : AppState) :
    Result → AppState → Prop
  | rejected (code : RejectCode) (msg : String) :
      Effect lib ctx cmd app (rejection cmd.type code msg) app
  | createdPolicy (p : CreatePolicyPayload) (name : String) (typed : cmd.type = .createPolicy)
      (payload : lib.createPolicy cmd.payload = some p) (shape : matchesPolicyID p.id = true)
      (named : validateName p.name maxPolicyName = .ok name)
      (bounds : PolicyBounds p.capacityTokens p.refillTokens p.refillIntervalMS p.maxCostTokens)
      (absent : app.getPolicy p.id = none) :
      Effect lib ctx cmd app
        { type := some .createPolicy, outcome := .applied,
          policy := some (p.policy name cmd.timestampMS) }
        { app with
          policies := app.policies.put (bytesOf p.id) (p.policy name cmd.timestampMS)
          audit := app.audit.put ctx.logIndex
            (adminAudit ctx "policy_created" p.id cmd.timestampMS) }
  | updatedPolicy (p : UpdatePolicyPayload) (old : Policy) (name : String)
      (visited : List (Bytes × TokenBucketState)) (tokenBuckets : Bucket Bytes TokenBucketState)
      (typed : cmd.type = .updatePolicy) (payload : lib.updatePolicy cmd.payload = some p)
      (found : app.getPolicy p.id = some old) (current : old.version = p.expectedVersion)
      (named : validateName p.name maxPolicyName = .ok name)
      (bounds : PolicyBounds p.capacityTokens p.refillTokens p.refillIntervalMS p.maxCostTokens)
      (walked : app.forEachTokenBucketByPolicy p.id = .ok visited)
      (written : writeBuckets app
        (visited.map fun item => convertBucket old p cmd.timestampMS item.2) =
          .ok { app with tokenBuckets }) :
      Effect lib ctx cmd app
        { type := some .updatePolicy, outcome := .applied,
          policy := some (p.policy old name cmd.timestampMS) }
        { app with
          policies := app.policies.put (bytesOf old.id) (p.policy old name cmd.timestampMS)
          tokenBuckets
          audit := app.audit.put ctx.logIndex
            (adminAudit ctx "policy_updated" old.id cmd.timestampMS) }
  | switchedPolicy (p : SetPolicyActivePayload) (old : Policy)
      (typed : cmd.type = .setPolicyActive) (payload : lib.setPolicyActive cmd.payload = some p)
      (found : app.getPolicy p.id = some old) (current : old.version = p.expectedVersion) :
      Effect lib ctx cmd app
        { type := some .setPolicyActive, outcome := .applied,
          policy := some (p.policy old cmd.timestampMS) }
        { app with
          policies := app.policies.put (bytesOf old.id) (p.policy old cmd.timestampMS)
          audit := app.audit.put ctx.logIndex (adminAudit ctx p.event old.id cmd.timestampMS) }
  | createdClient (p : CreateClientPayload) (name : String) (typed : cmd.type = .createClient)
      (payload : lib.createClient cmd.payload = some p)
      (named : validateName p.name maxClientName = .ok name)
      (listed : validateAllowedPolicies lib.quote p.allowedPolicyIDs = .ok ())
      (filled : ¬(p.id = "" ∨ p.keyPrefix = "" ∨ p.keyDigest.length = 0))
      (absent : app.getClient p.id = none) (free : app.getClientIDByPrefix p.keyPrefix = none)
      (existing : missingPolicy app p.allowedPolicyIDs = none) :
      Effect lib ctx cmd app
        { type := some .createClient, outcome := .applied,
          client := some (p.client name cmd.timestampMS) }
        { app with
          clients := app.clients.put (bytesOf p.id) (p.client name cmd.timestampMS)
          clientPrefix := app.clientPrefix.put (bytesOf p.keyPrefix) p.id
          audit := app.audit.put ctx.logIndex (adminAudit ctx "client_created" "" cmd.timestampMS) }
  | revokedAgain (p : RevokeClientPayload) (old : Client) (typed : cmd.type = .revokeClient)
      (payload : lib.revokeClient cmd.payload = some p) (found : app.getClient p.id = some old)
      (inactive : old.active = false) :
      Effect lib ctx cmd app
        { type := some .revokeClient, outcome := .applied, client := some old, duplicate := true }
        app
  | revokedClient (p : RevokeClientPayload) (old : Client) (typed : cmd.type = .revokeClient)
      (payload : lib.revokeClient cmd.payload = some p) (found : app.getClient p.id = some old)
      (active : old.active = true) :
      Effect lib ctx cmd app
        { type := some .revokeClient, outcome := .applied,
          client := some (old.revoked cmd.timestampMS) }
        { app with
          clients := app.clients.put (bytesOf old.id) (old.revoked cmd.timestampMS)
          audit := app.audit.put ctx.logIndex (adminAudit ctx "client_revoked" "" cmd.timestampMS) }
  | replayed (p : DecidePayload) (prior : DecisionRecord) (typed : cmd.type = .decide)
      (payload : lib.decide cmd.payload = some p)
      (shape : validateDecisionInput p.policyID p.subject p.requestID p.cost = .ok ())
      (found : app.decision p.clientID p.requestID = some prior)
      (same : prior.requestDigest = requestDigest lib p.policyID p.subject p.cost) :
      Effect lib ctx cmd app
        { type := some .decide, outcome := decided prior.allowed, duplicate := true,
          decision := some prior }
        app
  | charged (p : DecidePayload) (policy : Policy) (bucket settled : TokenBucketState)
      (allowed : Bool) (retryAfter : Int64) (tokenBuckets : Bucket Bytes TokenBucketState)
      (idempotency : Bucket Bytes DecisionRecord) (typed : cmd.type = .decide)
      (payload : lib.decide cmd.payload = some p)
      (shape : validateDecisionInput p.policyID p.subject p.requestID p.cost = .ok ())
      (fresh : app.decision p.clientID p.requestID = none)
      (authorized : authorize app p = .ok policy)
      (loaded : loadOrInitBucket app policy p.subject cmd.timestampMS = .ok bucket)
      (spent : settle ctx cmd p policy bucket = (settled, allowed, retryAfter))
      (charged : putPair app.tokenBuckets (bytesOf settled.policyID) (bytesOf settled.subject)
        settled = .ok tokenBuckets)
      (recorded : putPair app.idempotency (bytesOf p.clientID) (bytesOf p.requestID)
        (decisionRecord lib ctx cmd p settled allowed retryAfter) = .ok idempotency) :
      Effect lib ctx cmd app
        { type := some .decide, outcome := decided allowed,
          decision := some (decisionRecord lib ctx cmd p settled allowed retryAfter) }
        { app with
          tokenBuckets
          idempotency
          audit := app.audit.put ctx.logIndex (decisionAudit lib ctx cmd p settled allowed) }
  | pruned (p : PrunePayload) (typed : cmd.type = .prune)
      (payload : lib.prune cmd.payload = some p) :
      Effect lib ctx cmd app
        { type := some .prune, outcome := .applied,
          prune := some ⟨(expiredKeys app cmd.timestampMS).length, auditExcess app p.keep⟩ }
        { app with
          idempotency := (expiredKeys app cmd.timestampMS).foldl Bucket.delete app.idempotency
          audit := ((auditIndexes app).take (auditExcess app p.keep)).foldl Bucket.delete app.audit }

section Inversion

variable {lib : Stdlib} {ctx : ApplyContext} {cmd : Command} {app after : AppState}
  {result : Result} {type : CommandType}

theorem effect_reject {code : RejectCode} {msg : String} (typed : cmd.type = type)
    (ran : reject app type code msg = .ok (result, after)) : Effect lib ctx cmd app result after := by
  subst typed
  cases ran
  exact Effect.rejected code msg

theorem effect_validated {α : Type} {check : Except String α} {next : α → ApplyResult}
    (typed : cmd.type = type) (ran : validated app type check next = .ok (result, after))
    (rest : ∀ value, check = .ok value → next value = .ok (result, after) →
      Effect lib ctx cmd app result after) : Effect lib ctx cmd app result after := by
  unfold validated at ran
  split at ran
  · exact effect_reject typed ran
  · exact rest _ rfl ran

theorem createPolicy_effect (typed : cmd.type = .createPolicy)
    (ran : applyCreatePolicy lib ctx cmd app = .ok (result, after)) :
    Effect lib ctx cmd app result after := by
  obtain ⟨p, decoded, ran⟩ := bind_ok ran
  refine effect_validated typed ran fun _ shape ran => ?_
  refine effect_validated typed ran fun name named ran => ?_
  refine effect_validated typed ran fun _ fields ran => ?_
  split at ran
  · exact effect_reject typed ran
  · rename_i absent
    obtain ⟨stored, written, ran⟩ := bind_ok ran
    obtain rfl := AppState.putPolicy_ok (mapError_ok written)
    cases ran
    exact Effect.createdPolicy p name typed (unmarshalPayload_ok decoded)
      (validatePolicyID_ok shape) named (validatePolicyFields_ok fields) absent

theorem writeBuckets_frame {converted : List TokenBucketState}
    (written : writeBuckets app converted = .ok after) :
    after = { app with tokenBuckets := after.tokenBuckets } := by
  induction converted generalizing app with
  | nil =>
      cases written
      rfl
  | cons first rest ih =>
      obtain ⟨stored, put, written⟩ := bind_ok written
      obtain ⟨tokenBuckets, _, rfl⟩ := AppState.putTokenBucket_ok put
      have kept := ih written
      exact kept

theorem updatePolicy_effect (typed : cmd.type = .updatePolicy)
    (ran : applyUpdatePolicy lib ctx cmd app = .ok (result, after)) :
    Effect lib ctx cmd app result after := by
  obtain ⟨p, decoded, ran⟩ := bind_ok ran
  split at ran
  · exact effect_reject typed ran
  · rename_i old found
    split at ran
    · exact effect_reject typed ran
    · rename_i current
      refine effect_validated typed ran fun name named ran => ?_
      refine effect_validated typed ran fun _ fields ran => ?_
      obtain ⟨visited, walked, ran⟩ := bind_ok ran
      obtain ⟨converted, written, ran⟩ := bind_ok ran
      obtain ⟨stored, put, ran⟩ := bind_ok ran
      obtain rfl := AppState.putPolicy_ok (mapError_ok put)
      have buckets := mapError_ok written
      have frame := writeBuckets_frame buckets
      cases ran
      rw [frame] at buckets ⊢
      exact Effect.updatedPolicy p old name visited converted.tokenBuckets typed
        (unmarshalPayload_ok decoded) found (not_not.mp current) named
        (validatePolicyFields_ok fields) (mapError_ok walked) buckets

theorem setPolicyActive_effect (typed : cmd.type = .setPolicyActive)
    (ran : applySetPolicyActive lib ctx cmd app = .ok (result, after)) :
    Effect lib ctx cmd app result after := by
  obtain ⟨p, decoded, ran⟩ := bind_ok ran
  split at ran
  · exact effect_reject typed ran
  · rename_i old found
    split at ran
    · exact effect_reject typed ran
    · rename_i current
      obtain ⟨stored, put, ran⟩ := bind_ok ran
      obtain rfl := AppState.putPolicy_ok (mapError_ok put)
      cases ran
      exact Effect.switchedPolicy p old typed (unmarshalPayload_ok decoded) found
        (not_not.mp current)

theorem createClient_effect (typed : cmd.type = .createClient)
    (ran : applyCreateClient lib ctx cmd app = .ok (result, after)) :
    Effect lib ctx cmd app result after := by
  obtain ⟨p, decoded, ran⟩ := bind_ok ran
  refine effect_validated typed ran fun name named ran => ?_
  refine effect_validated typed ran fun _ listed ran => ?_
  split at ran
  · exact effect_reject typed ran
  split at ran
  · exact effect_reject typed ran
  split at ran
  · exact effect_reject typed ran
  rename_i filled absent free
  split at ran
  · exact effect_reject typed ran
  · rename_i existing
    obtain ⟨stored, put, ran⟩ := bind_ok ran
    obtain rfl := AppState.putClient_ok (mapError_ok put)
    obtain ⟨indexed, put, ran⟩ := bind_ok ran
    obtain rfl := AppState.putClientPrefix_ok (mapError_ok put)
    cases ran
    rw [Bool.not_eq_true, Option.isSome_eq_false_iff, Option.isNone_iff_eq_none] at absent free
    exact Effect.createdClient p name typed (unmarshalPayload_ok decoded) named listed filled
      absent free existing

theorem revokeClient_effect (typed : cmd.type = .revokeClient)
    (ran : applyRevokeClient lib ctx cmd app = .ok (result, after)) :
    Effect lib ctx cmd app result after := by
  obtain ⟨p, decoded, ran⟩ := bind_ok ran
  split at ran
  · exact effect_reject typed ran
  · rename_i old found
    split at ran
    · rename_i inactive
      cases ran
      exact Effect.revokedAgain p old typed (unmarshalPayload_ok decoded) found
        (by simpa using inactive)
    · rename_i active
      obtain ⟨stored, put, ran⟩ := bind_ok ran
      obtain rfl := AppState.putClient_ok (mapError_ok put)
      cases ran
      exact Effect.revokedClient p old typed (unmarshalPayload_ok decoded) found
        (by simpa using active)

theorem decide_effect (typed : cmd.type = .decide)
    (ran : applyDecide lib ctx cmd app = .ok (result, after)) :
    Effect lib ctx cmd app result after := by
  obtain ⟨p, decoded, ran⟩ := bind_ok ran
  refine effect_validated typed ran fun _ shape ran => ?_
  obtain ⟨found, looked, ran⟩ := bind_ok ran
  have stored : app.decision p.clientID p.requestID = found := getPair_ok (mapError_ok looked)
  split at ran
  · rename_i prior
    split at ran
    · exact effect_reject typed ran
    · rename_i same
      cases ran
      exact Effect.replayed p prior typed (unmarshalPayload_ok decoded) shape stored
        (not_not.mp same)
  · split at ran
    · exact effect_reject typed ran
    · rename_i policy authorized
      obtain ⟨bucket, loaded, ran⟩ := bind_ok ran
      obtain ⟨charged, put, ran⟩ := bind_ok ran
      obtain ⟨tokenBuckets, charged, rfl⟩ := AppState.putTokenBucket_ok (mapError_ok put)
      obtain ⟨recorded, put, ran⟩ := bind_ok ran
      obtain ⟨idempotency, recorded, rfl⟩ := AppState.putIdempotency_ok (mapError_ok put)
      cases ran
      exact Effect.charged p policy bucket _ _ _ tokenBuckets idempotency typed
        (unmarshalPayload_ok decoded) shape stored authorized (mapError_ok loaded) rfl charged
        recorded

theorem foldl_deleteIdempotency (keys : List Bytes) (app : AppState) :
    keys.foldl AppState.deleteIdempotency app =
      { app with idempotency := keys.foldl Bucket.delete app.idempotency } := by
  induction keys generalizing app with
  | nil => rfl
  | cons key rest ih =>
      rw [List.foldl_cons, ih]
      rfl

theorem foldl_deleteAudit (indexes : List Nat) (app : AppState) :
    indexes.foldl AppState.deleteAudit app =
      { app with audit := indexes.foldl Bucket.delete app.audit } := by
  induction indexes generalizing app with
  | nil => rfl
  | cons index rest ih =>
      rw [List.foldl_cons, ih]
      rfl

theorem prune_effect (typed : cmd.type = .prune)
    (ran : applyPrune lib cmd app = .ok (result, after)) : Effect lib ctx cmd app result after := by
  obtain ⟨p, decoded, ran⟩ := bind_ok ran
  simp only [foldl_deleteIdempotency, foldl_deleteAudit] at ran
  cases ran
  exact Effect.pruned p typed (unmarshalPayload_ok decoded)

/-- A command that returns no Go error has one of the listed effects. -/
theorem applyTx_effect (ran : applyTx lib ctx cmd app = .ok (result, after)) :
    Effect lib ctx cmd app result after := by
  unfold applyTx at ran
  split at ran
  · exact createPolicy_effect ‹_› ran
  · exact updatePolicy_effect ‹_› ran
  · exact setPolicyActive_effect ‹_› ran
  · exact createClient_effect ‹_› ran
  · exact revokeClient_effect ‹_› ran
  · exact decide_effect ‹_› ran
  · exact prune_effect ‹_› ran
  · cases ran

theorem effect_update {p : UpdatePolicyPayload} (effect : Effect lib ctx cmd app result after)
    (typed : cmd.type = .updatePolicy) (payload : lib.updatePolicy cmd.payload = some p)
    (made : result.outcome ≠ .rejected) :
    ∃ old name visited tokenBuckets audit, app.getPolicy p.id = some old ∧
      app.forEachTokenBucketByPolicy p.id = .ok visited ∧
      writeBuckets app (visited.map fun item => convertBucket old p cmd.timestampMS item.2) =
        .ok { app with tokenBuckets } ∧
      after = { app with
        policies := app.policies.put (bytesOf old.id) (p.policy old name cmd.timestampMS)
        tokenBuckets
        audit } := by
  cases effect with
  | rejected code msg => exact absurd rfl made
  | updatedPolicy q old name visited tokenBuckets _ again found current named bounds walked
      written =>
      cases payload.symm.trans again
      exact ⟨old, name, visited, tokenBuckets, _, found, walked, written, rfl⟩
  | createdPolicy q name other => cases typed.symm.trans other
  | switchedPolicy q old other => cases typed.symm.trans other
  | createdClient q name other => cases typed.symm.trans other
  | revokedAgain q old other => cases typed.symm.trans other
  | revokedClient q old other => cases typed.symm.trans other
  | replayed q prior other => cases typed.symm.trans other
  | charged q policy bucket settled allowed retryAfter tokenBuckets idempotency other =>
      cases typed.symm.trans other
  | pruned q other => cases typed.symm.trans other

theorem effect_decide {p : DecidePayload} (effect : Effect lib ctx cmd app result after)
    (typed : cmd.type = .decide) (payload : lib.decide cmd.payload = some p) :
    after = app ∧ (result.outcome = .rejected ∨ app.decision p.clientID p.requestID ≠ none) ∨
      ∃ policy bucket settled allowed retryAfter tokenBuckets idempotency audit,
        app.decision p.clientID p.requestID = none ∧ authorize app p = .ok policy ∧
        loadOrInitBucket app policy p.subject cmd.timestampMS = .ok bucket ∧
        settle ctx cmd p policy bucket = (settled, allowed, retryAfter) ∧
        putPair app.tokenBuckets (bytesOf settled.policyID) (bytesOf settled.subject) settled =
          .ok tokenBuckets ∧
        putPair app.idempotency (bytesOf p.clientID) (bytesOf p.requestID)
          (decisionRecord lib ctx cmd p settled allowed retryAfter) = .ok idempotency ∧
        after = { app with tokenBuckets, idempotency, audit } ∧
        result.outcome = decided allowed := by
  cases effect with
  | rejected code msg => exact Or.inl ⟨rfl, Or.inl rfl⟩
  | replayed q prior _ again shape found same =>
      cases payload.symm.trans again
      exact Or.inl ⟨rfl, Or.inr (by simp [found])⟩
  | charged q policy bucket settled allowed retryAfter tokenBuckets idempotency _ again shape fresh
      authorized loaded spent charged recorded =>
      cases payload.symm.trans again
      exact Or.inr ⟨policy, bucket, settled, allowed, retryAfter, tokenBuckets, idempotency, _, fresh,
        authorized, loaded, spent, charged, recorded, rfl, rfl⟩
  | createdPolicy q name other => cases typed.symm.trans other
  | updatedPolicy q old name visited tokenBuckets other => cases typed.symm.trans other
  | switchedPolicy q old other => cases typed.symm.trans other
  | createdClient q name other => cases typed.symm.trans other
  | revokedAgain q old other => cases typed.symm.trans other
  | revokedClient q old other => cases typed.symm.trans other
  | pruned q other => cases typed.symm.trans other

end Inversion

end QuorumLimiter.Limiter
