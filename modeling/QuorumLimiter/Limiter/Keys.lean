import QuorumLimiter.Limiter.Invariants

/-!
Keys. Whatever the timestamps of the commands, every record lies under its own
key, and the key is short enough for the record to be written again.
-/

namespace QuorumLimiter

section Short

variable {ν : Type}

theorem bytesOf_length (text : String) : (bytesOf text).length = text.utf8ByteSize := rfl

theorem bytesOf_ne_nil {text : String} (filled : text ≠ "") : bytesOf text ≠ [] :=
  fun empty => filled (bytesOf_injective text "" empty)

theorem putKey_short (bucket : Bucket Bytes ν) {key : Bytes} (value : ν) (filled : key ≠ [])
    (short : key.length ≤ maxKeySize) : putKey bucket key value = .ok (bucket.put key value) := by
  rw [putKey, if_neg (fun empty => filled (List.length_eq_zero_iff.mp empty)),
    if_neg (Nat.not_lt.mpr short)]

theorem compositeKey_short {first second : Bytes} (left : first.length ≤ maxKeyPartLen)
    (right : second.length ≤ maxKeyPartLen) :
    compositeKey [first, second] = .ok (encodePart first ++ encodePart second) := by
  rw [compositeKey_eq_ok_iff]
  exact ⟨by simp [left, right], by simp⟩

theorem pair_length (first second : Bytes) :
    (encodePart first ++ encodePart second).length = first.length + second.length + 4 := by
  simp only [encodePart, putUint16, List.length_append, List.length_cons, List.length_nil]
  omega

theorem putPair_length {bucket after : Bucket Bytes ν} {first second : Bytes} {value : ν}
    (written : putPair bucket first second value = .ok after) :
    first.length + second.length + 4 ≤ maxKeySize := by
  unfold putPair at written
  split at written
  · contradiction
  · rename_i key encoded
    obtain ⟨_, rfl⟩ := (compositeKey_eq_ok_iff _ _).mp encoded
    have bound := (putKey_ok written).2.2
    rw [List.flatMap_cons, List.flatMap_cons, List.flatMap_nil, List.append_nil, pair_length] at bound
    exact bound

theorem putPair_short (bucket : Bucket Bytes ν) {first second : Bytes} (value : ν)
    (short : first.length + second.length + 4 ≤ maxKeySize) :
    ∃ after, putPair bucket first second value = .ok after := by
  have parts : maxKeySize ≤ maxKeyPartLen := by decide
  have length := pair_length first second
  rw [putPair, compositeKey_short (by omega) (by omega)]
  refine ⟨_, putKey_short bucket value ?_ (by omega)⟩
  intro empty
  rw [empty, List.length_nil] at length
  omega

end Short

end QuorumLimiter

namespace QuorumLimiter.Limiter

section Shapes

theorem policyID_bytes {id : String} (shape : matchesPolicyID id = true) :
    bytesOf id ≠ [] ∧ (bytesOf id).length ≤ 192 := by
  have encoded : (bytesOf id).length = JsonText.size id.toList := by
    rw [← JsonText.size_encoded, String.ofList_toList]
    rfl
  have wide := JsonText.size_le id.toList
  unfold matchesPolicyID at shape
  split at shape
  · contradiction
  · rename_i first rest split
    simp only [Bool.and_eq_true, decide_eq_true_eq] at shape
    constructor
    · apply bytesOf_ne_nil
      rintro rfl
      cases split
    · rw [split, List.length_cons] at wide
      rw [encoded, split]
      omega

theorem subject_bytes {subject : String} (accepted : validateSubject subject = .ok ()) :
    (bytesOf subject).length ≤ 128 := by
  unfold validateSubject at accepted
  split at accepted
  · contradiction
  · rename_i bounds
    rw [not_or, not_lt, not_lt] at bounds
    exact bounds.2

theorem requestID_bytes {id : String} (accepted : validateRequestID id = .ok ()) :
    (bytesOf id).length ≤ 128 := by
  unfold validateRequestID at accepted
  split at accepted
  · contradiction
  · rename_i bounds
    rw [not_or, not_lt, not_lt] at bounds
    exact bounds.2

theorem validateDecisionInput_parts {policyID subject requestID : String} {cost : Int64}
    (accepted : validateDecisionInput policyID subject requestID cost = .ok ()) :
    matchesPolicyID policyID = true ∧ validateSubject subject = .ok () ∧
      validateRequestID requestID = .ok () := by
  obtain ⟨_, policy, accepted⟩ := bind_ok accepted
  obtain ⟨_, shape, accepted⟩ := bind_ok accepted
  obtain ⟨_, request, accepted⟩ := bind_ok accepted
  exact ⟨validatePolicyID_ok policy, shape, request⟩

end Shapes

structure Keyed (app : AppState) : Prop where
  policies : ∀ key policy, app.policies.get key = some policy →
    key = bytesOf policy.id ∧ matchesPolicyID policy.id = true ∧ policy.Bounded
  clients : ∀ key client, app.clients.get key = some client →
    key = bytesOf client.id ∧ client.id ≠ ""
  buckets : ∀ key b, app.tokenBuckets.get key = some b →
    compositeKey [bytesOf b.policyID, bytesOf b.subject] = .ok key ∧
      matchesPolicyID b.policyID = true ∧ validateSubject b.subject = .ok ()

section Reading

variable {app : AppState}

theorem keyed_migrated : Keyed AppState.migrated := by
  constructor <;> intro key value found <;> cases found

theorem keyed_ownKeys (keyed : Keyed app) : OwnKeys app :=
  fun key b stored => (keyed.buckets key b stored).1

theorem keyed_getPolicy {id : String} {policy : Policy} (keyed : Keyed app)
    (found : app.getPolicy id = some policy) :
    policy.id = id ∧ matchesPolicyID policy.id = true ∧ policy.Bounded := by
  obtain ⟨key, shape, bounded⟩ := keyed.policies _ _ found
  exact ⟨(bytesOf_injective _ _ key).symm, shape, bounded⟩

theorem keyed_getClient {id : String} {client : Client} (keyed : Keyed app)
    (found : app.getClient id = some client) : client.id = id ∧ client.id ≠ "" := by
  obtain ⟨key, filled⟩ := keyed.clients _ _ found
  exact ⟨(bytesOf_injective _ _ key).symm, filled⟩

theorem loadOrInitBucket_owner {policy : Policy} {subject : String} {now : Int64}
    {bucket : TokenBucketState} (own : OwnKeys app)
    (loaded : loadOrInitBucket app policy subject now = .ok bucket) :
    bucket.policyID = policy.id ∧ bucket.subject = subject := by
  obtain ⟨found, looked, loaded⟩ := bind_ok loaded
  have stored : app.tokenBucket policy.id subject = found := getPair_ok looked
  cases found with
  | some found =>
      cases loaded
      exact ownKeys_tokenBucket own stored
  | none =>
      cases loaded
      exact ⟨rfl, rfl⟩

end Reading

section Steps

variable {lib : Stdlib} {ctx : ApplyContext} {cmd : Command} {app after : AppState}
  {result : Result}

theorem keyed_putPolicy (policy : Policy) {audit : Bucket Nat AuditEvent} (keyed : Keyed app)
    (shape : matchesPolicyID policy.id = true) (bounded : policy.Bounded) :
    Keyed { app with policies := app.policies.put (bytesOf policy.id) policy, audit } := by
  refine ⟨?_, keyed.clients, keyed.buckets⟩
  intro key stored found
  simp only [Bucket.get_put] at found
  split at found
  · rename_i same
    cases found
    exact ⟨same, shape, bounded⟩
  · exact keyed.policies key stored found

theorem keyed_putClient (client : Client) {clientPrefix : Bucket Bytes String}
    {audit : Bucket Nat AuditEvent} (keyed : Keyed app) (filled : client.id ≠ "") :
    Keyed { app with
      clients := app.clients.put (bytesOf client.id) client, clientPrefix, audit } := by
  refine ⟨keyed.policies, ?_, keyed.buckets⟩
  intro key stored found
  simp only [Bucket.get_put] at found
  split at found
  · rename_i same
    cases found
    exact ⟨same, filled⟩
  · exact keyed.clients key stored found

theorem keyed_effect (keyed : Keyed app) (effect : Effect lib ctx cmd app result after) :
    Keyed after := by
  cases effect with
  | rejected code msg => exact keyed
  | createdPolicy p name typed payload shape named bounds absent =>
      exact keyed_putPolicy (p.policy name cmd.timestampMS) keyed shape bounds
  | updatedPolicy p old name visited tokenBuckets typed payload found current named bounds walked
      written =>
      obtain ⟨_, shape, _⟩ := keyed_getPolicy keyed found
      have converted : Keyed { app with tokenBuckets } := by
        refine ⟨keyed.policies, keyed.clients, ?_⟩
        intro key b stored
        obtain ⟨before, present, change⟩ :=
          converted_inv (keyed_ownKeys keyed) walked written stored
        have kept := keyed.buckets key before present
        rcases change with ⟨_, rfl⟩ | ⟨_, rfl⟩
        · rw [convertBucket_policyID, convertBucket_subject]
          exact kept
        · exact kept
      exact keyed_putPolicy (p.policy old name cmd.timestampMS) converted shape bounds
  | switchedPolicy p old typed payload found current =>
      obtain ⟨_, shape, bounded⟩ := keyed_getPolicy keyed found
      exact keyed_putPolicy (p.policy old cmd.timestampMS) keyed shape bounded
  | createdClient p name typed payload named listed filled absent free existing =>
      exact keyed_putClient (p.client name cmd.timestampMS) keyed fun empty => filled (Or.inl empty)
  | revokedAgain p old typed payload found inactive => exact keyed
  | revokedClient p old typed payload found active =>
      exact keyed_putClient (old.revoked cmd.timestampMS) keyed (keyed_getClient keyed found).2
  | replayed p prior typed payload shape found same => exact keyed
  | charged p policy bucket settled allowed retryAfter tokenBuckets idempotency typed payload shape
      fresh authorized loaded spent charged recorded =>
      obtain ⟨found, _⟩ := authorize_ok authorized
      obtain ⟨_, subject, _⟩ := validateDecisionInput_parts shape
      obtain ⟨_, policyShape, _⟩ := keyed_getPolicy keyed found
      obtain ⟨owner, named⟩ := loadOrInitBucket_owner (keyed_ownKeys keyed) loaded
      obtain ⟨keptOwner, keptName⟩ := settle_owner spent
      obtain ⟨own, encoded, rfl⟩ := putPair_ok charged
      refine ⟨keyed.policies, keyed.clients, ?_⟩
      intro key b stored
      simp only [Bucket.get_put] at stored
      split at stored
      · rename_i equal
        cases stored
        refine ⟨equal ▸ encoded, ?_, ?_⟩
        · rw [keptOwner, owner]
          exact policyShape
        · rw [keptName, named]
          exact subject
      · exact keyed.buckets key b stored
  | pruned p typed payload => exact ⟨keyed.policies, keyed.clients, keyed.buckets⟩

theorem keyed_finish (state : Nat × AppState) (commands : List (ApplyContext × Command))
    (keyed : Keyed state.2) : Keyed (finish lib state commands).2 :=
  finish_keeps Keyed state (fun _ _ _ _ _ keyed effect => keyed_effect keyed effect) keyed

end Steps

end QuorumLimiter.Limiter
