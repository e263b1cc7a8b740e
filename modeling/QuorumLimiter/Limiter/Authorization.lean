import QuorumLimiter.Lib.Past
import QuorumLimiter.Limiter.Invariants

/-!
Who may be charged, read off the commands applied so far. `Recorded` says that the
stored clients and policies are what the applied commands made them; rejected
commands, decisions and prunes leave no trace there. No timestamp matters.
-/

namespace QuorumLimiter.Limiter

open Past

/-- A command that was applied to clients or policies. -/
inductive Change
  | createPolicy (p : CreatePolicyPayload)
  | updatePolicy (p : UpdatePolicyPayload)
  | setPolicyActive (p : SetPolicyActivePayload)
  | createClient (p : CreateClientPayload)
  | revokeClient (p : RevokeClientPayload)

def changeOf (lib : Stdlib) (cmd : Command) (result : Result) : Option Change :=
  if result.outcome ≠ .applied then none
  else
    match cmd.type with
    | .createPolicy => (lib.createPolicy cmd.payload).map .createPolicy
    | .updatePolicy => (lib.updatePolicy cmd.payload).map .updatePolicy
    | .setPolicyActive => (lib.setPolicyActive cmd.payload).map .setPolicyActive
    | .createClient => (lib.createClient cmd.payload).map .createClient
    | .revokeClient => (lib.revokeClient cmd.payload).map .revokeClient
    | .decide | .prune | .unknown _ => none

def changes (lib : Stdlib) (past : List Step) : List Change :=
  past.filterMap fun step => changeOf lib step.cmd step.result

namespace Change

/-- The list the client was created with. -/
def grants (clientID : String) : Change → Option (List String)
  | .createClient p => if p.id = clientID then some p.allowedPolicyIDs else none
  | _ => none

def revokes (clientID : String) : Change → Prop
  | .revokeClient p => p.id = clientID
  | _ => False

def creates (policyID : String) : Change → Prop
  | .createPolicy p => p.id = policyID
  | _ => False

/-- Whether the policy was left active. -/
def switches (policyID : String) : Change → Option Bool
  | .createPolicy p => if p.id = policyID then some p.active else none
  | .setPolicyActive p => if p.id = policyID then some p.active else none
  | _ => none

/-- The highest cost the policy was given. -/
def prices (policyID : String) : Change → Option Int64
  | .createPolicy p => if p.id = policyID then some p.maxCostTokens else none
  | .updatePolicy p => if p.id = policyID then some p.maxCostTokens else none
  | _ => none

end Change

/-- The client was created for the policy and not revoked since, the policy was created
and last left active, and the cost is within what it was last given. -/
structure Authorized (past : List Change) (p : DecidePayload) : Prop where
  client : ∃ allowed, Since (·.grants p.clientID = some allowed) (¬ ·.revokes p.clientID) past ∧
    (allowed = ["*"] ∨ p.policyID ∈ allowed)
  created : ∃ change ∈ past, change.creates p.policyID
  active : Latest (·.switches p.policyID) true past
  price : ∃ most, Latest (·.prices p.policyID) most past ∧ p.cost ≤ most

structure ClientsRecorded (past : List Change) (app : AppState) : Prop where
  keyed : ∀ id client, app.getClient id = some client → client.id = id
  listed : ∀ id client, app.getClient id = some client → "*" ∈ client.allowedPolicyIDs →
    client.allowedPolicyIDs = ["*"]
  active : ∀ id allowed, (∃ client, app.getClient id = some client ∧ client.active = true ∧
    client.allowedPolicyIDs = allowed) ↔ Since (·.grants id = some allowed) (¬ ·.revokes id) past
  revoked : ∀ id, (∃ change ∈ past, change.revokes id) →
    ∃ client, app.getClient id = some client ∧ client.active = false

structure PoliciesRecorded (past : List Change) (app : AppState) : Prop where
  keyed : ∀ id policy, app.getPolicy id = some policy → policy.id = id
  created : ∀ id policy, app.getPolicy id = some policy → ∃ change ∈ past, change.creates id
  active : ∀ id active, (app.getPolicy id).map (·.active) = some active ↔
    Latest (·.switches id) active past
  price : ∀ id most, (app.getPolicy id).map (·.maxCostTokens) = some most ↔
    Latest (·.prices id) most past

structure Recorded (past : List Change) (app : AppState) : Prop where
  clients : ClientsRecorded past app
  policies : PoliciesRecorded past app

theorem recorded_migrated : Recorded [] AppState.migrated := by
  refine ⟨⟨?_, ?_, ?_, ?_⟩, ⟨?_, ?_, ?_, ?_⟩⟩
  · rintro id client ⟨⟩
  · rintro id client ⟨⟩
  · intro id allowed
    refine iff_of_false ?_ since_nil
    rintro ⟨client, ⟨⟩, _⟩
  · rintro id ⟨change, ⟨⟩, _⟩
  · rintro id policy ⟨⟩
  · rintro id policy ⟨⟩
  · exact fun id active => iff_of_false (by rintro ⟨⟩) since_nil
  · exact fun id most => iff_of_false (by rintro ⟨⟩) since_nil

section Clients

variable {past : List Change} {app after : AppState} {change : Change}

theorem validateEach_star {quote : String → String} {ids seen : List String}
    (accepted : validateEach quote seen ids = .ok ()) : "*" ∉ ids := by
  induction ids generalizing seen with
  | nil => simp
  | cons id rest ih =>
      rw [validateEach] at accepted
      split at accepted
      · contradiction
      rename_i different
      split at accepted
      · contradiction
      split at accepted
      · contradiction
      simp only [List.mem_cons, not_or]
      exact ⟨fun same => different same.symm, ih accepted⟩

theorem validateAllowedPolicies_star {quote : String → String} {ids : List String}
    (accepted : validateAllowedPolicies quote ids = .ok ()) (star : "*" ∈ ids) : ids = ["*"] := by
  unfold validateAllowedPolicies at accepted
  split at accepted
  · contradiction
  split at accepted
  · assumption
  split at accepted
  · contradiction
  · exact absurd star (validateEach_star accepted)

theorem getClient_put (app : AppState) (client : Client) (own id : String) :
    ({ app with clients := app.clients.put (bytesOf own) client } : AppState).getClient id =
      if id = own then some client else app.getClient id := by
  rw [AppState.getClient, Bucket.get_put]
  by_cases same : id = own
  · simp [same]
  · rw [if_neg same, if_neg (fun equal => same (bytesOf_injective _ _ equal))]
    rfl

theorem clients_kept (recorded : ClientsRecorded past app) (same : after.clients = app.clients)
    (grants : ∀ id, change.grants id = none) (revokes : ∀ id, ¬ change.revokes id) :
    ClientsRecorded (past ++ [change]) after := by
  have stored : ∀ id, after.getClient id = app.getClient id := by
    intro id
    rw [AppState.getClient, same]
    rfl
  refine ⟨?_, ?_, ?_, ?_⟩
  · intro id client found
    exact recorded.keyed id client (stored id ▸ found)
  · intro id client found
    exact recorded.listed id client (stored id ▸ found)
  · intro id allowed
    rw [since_snoc, stored, recorded.active]
    simp [grants id, revokes id]
  · rintro id ⟨other, member, revoked⟩
    rw [stored]
    rcases List.mem_append.mp member with early | last
    · exact recorded.revoked id ⟨other, early, revoked⟩
    · rw [List.mem_singleton.mp last] at revoked
      exact absurd revoked (revokes id)

theorem clients_created {p : CreateClientPayload} {name : String} {ts : Int64}
    {quote : String → String} (recorded : ClientsRecorded past app)
    (listed : validateAllowedPolicies quote p.allowedPolicyIDs = .ok ())
    (absent : app.getClient p.id = none)
    (stored : ∀ id, after.getClient id =
      if id = p.id then some (p.client name ts) else app.getClient id) :
    ClientsRecorded (past ++ [.createClient p]) after := by
  refine ⟨?_, ?_, ?_, ?_⟩
  · intro id client found
    rw [stored] at found
    split at found
    · rename_i same
      cases found
      exact same.symm
    · exact recorded.keyed id client found
  · intro id client found
    rw [stored] at found
    split at found
    · cases found
      exact validateAllowedPolicies_star listed
    · exact recorded.listed id client found
  · intro id allowed
    rw [since_snoc, ← recorded.active, stored]
    by_cases same : id = p.id
    · subst same
      simp [Change.grants, absent, CreateClientPayload.client]
    · simp [Change.grants, Change.revokes, same, Ne.symm same]
  · rintro id ⟨other, member, revoked⟩
    rcases List.mem_append.mp member with early | last
    · obtain ⟨client, found, inactive⟩ := recorded.revoked id ⟨other, early, revoked⟩
      refine ⟨client, ?_, inactive⟩
      rw [stored, if_neg, found]
      rintro rfl
      cases absent.symm.trans found
    · rw [List.mem_singleton.mp last] at revoked
      exact False.elim revoked

theorem clients_revoked {p : RevokeClientPayload} {old : Client} (client : Client)
    (recorded : ClientsRecorded past app) (found : app.getClient p.id = some old)
    (named : client.id = old.id) (kept : client.allowedPolicyIDs = old.allowedPolicyIDs)
    (inactive : client.active = false)
    (stored : ∀ id, after.getClient id = if id = p.id then some client else app.getClient id) :
    ClientsRecorded (past ++ [.revokeClient p]) after := by
  refine ⟨?_, ?_, ?_, ?_⟩
  · intro id other looked
    rw [stored] at looked
    split at looked
    · rename_i same
      cases looked
      rw [named, same]
      exact recorded.keyed p.id old found
    · exact recorded.keyed id other looked
  · intro id other looked
    rw [stored] at looked
    split at looked
    · cases looked
      rw [kept]
      exact recorded.listed p.id old found
    · exact recorded.listed id other looked
  · intro id allowed
    rw [since_snoc, ← recorded.active, stored]
    by_cases same : id = p.id
    · subst same
      simp [Change.grants, Change.revokes, inactive]
    · simp [Change.grants, Change.revokes, same, Ne.symm same]
  · rintro id ⟨other, member, revoked⟩
    rw [stored]
    split
    · exact ⟨client, rfl, inactive⟩
    · rename_i different
      rcases List.mem_append.mp member with early | last
      · exact recorded.revoked id ⟨other, early, revoked⟩
      · rw [List.mem_singleton.mp last] at revoked
        exact absurd revoked.symm different

end Clients

section Policies

variable {past : List Change} {app after : AppState} {change : Change}

theorem policies_kept (recorded : PoliciesRecorded past app) (same : after.policies = app.policies)
    (switches : ∀ id, change.switches id = none) (prices : ∀ id, change.prices id = none) :
    PoliciesRecorded (past ++ [change]) after := by
  have stored : ∀ id, after.getPolicy id = app.getPolicy id := by
    intro id
    rw [AppState.getPolicy, same]
    rfl
  refine ⟨?_, ?_, ?_, ?_⟩
  · intro id policy found
    exact recorded.keyed id policy (stored id ▸ found)
  · intro id policy found
    obtain ⟨other, member, creates⟩ := recorded.created id policy (stored id ▸ found)
    exact ⟨other, by simp [member], creates⟩
  · intro id active
    rw [latest_snoc, stored, recorded.active]
    simp [switches id]
  · intro id most
    rw [latest_snoc, stored, recorded.price]
    simp [prices id]

theorem latest_put {β : Type} {field : Policy → β} {read : String → Change → Option β}
    {policy : Policy}
    (recorded : ∀ id value, (app.getPolicy id).map field = some value ↔ Latest (read id) value past)
    (stored : ∀ id, after.getPolicy id = if id = policy.id then some policy else app.getPolicy id)
    (own : read policy.id change = some (field policy) ∨
      read policy.id change = none ∧ (app.getPolicy policy.id).map field = some (field policy))
    (others : ∀ id, id ≠ policy.id → read id change = none) (id : String) (value : β) :
    (after.getPolicy id).map field = some value ↔ Latest (read id) value (past ++ [change]) := by
  -- One field of one policy, which the change sets or leaves as it was.
  rw [latest_snoc, ← recorded, stored]
  by_cases same : id = policy.id
  · subst same
    rcases own with set | ⟨kept, before⟩
    · simp [set]
    · simp [kept, before]
  · simp [same, others id same]

theorem policies_put (policy : Policy) (recorded : PoliciesRecorded past app)
    (stored : ∀ id, after.getPolicy id = if id = policy.id then some policy else app.getPolicy id)
    (created : change.creates policy.id ∨ ∃ old, app.getPolicy policy.id = some old)
    (switches : change.switches policy.id = some policy.active ∨
      change.switches policy.id = none ∧
        (app.getPolicy policy.id).map (·.active) = some policy.active)
    (prices : change.prices policy.id = some policy.maxCostTokens ∨
      change.prices policy.id = none ∧
        (app.getPolicy policy.id).map (·.maxCostTokens) = some policy.maxCostTokens)
    (others : ∀ id, id ≠ policy.id → change.switches id = none ∧ change.prices id = none) :
    PoliciesRecorded (past ++ [change]) after := by
  refine ⟨?_, ?_, ?_, ?_⟩
  · intro id found looked
    rw [stored] at looked
    split at looked
    · rename_i same
      cases looked
      exact same.symm
    · exact recorded.keyed id found looked
  · intro id found looked
    have before : ∀ old, app.getPolicy id = some old →
        ∃ other ∈ past ++ [change], other.creates id := by
      intro old present
      obtain ⟨other, member, creates⟩ := recorded.created id old present
      exact ⟨other, by simp [member], creates⟩
    rw [stored] at looked
    split at looked
    · rename_i same
      subst same
      rcases created with now | ⟨old, present⟩
      · exact ⟨change, by simp, now⟩
      · exact before old present
    · exact before found looked
  · exact latest_put recorded.active stored switches fun id different => (others id different).1
  · exact latest_put recorded.price stored prices fun id different => (others id different).2

end Policies

section Steps

variable {lib : Stdlib} {ctx : ApplyContext} {cmd : Command} {past : List Change}
  {app after : AppState} {result : Result}

theorem changeOf_decided (allowed : Bool) (outcome : result.outcome = decided allowed) :
    changeOf lib cmd result = none := by
  rw [changeOf, outcome]
  cases allowed <;> rfl

/-- The command is of the change's kind and carries its payload. -/
def Change.Reads (lib : Stdlib) (cmd : Command) : Change → Prop
  | .createPolicy p => cmd.type = .createPolicy ∧ lib.createPolicy cmd.payload = some p
  | .updatePolicy p => cmd.type = .updatePolicy ∧ lib.updatePolicy cmd.payload = some p
  | .setPolicyActive p => cmd.type = .setPolicyActive ∧ lib.setPolicyActive cmd.payload = some p
  | .createClient p => cmd.type = .createClient ∧ lib.createClient cmd.payload = some p
  | .revokeClient p => cmd.type = .revokeClient ∧ lib.revokeClient cmd.payload = some p

theorem changeOf_applied (change : Change) (applied : result.outcome = .applied)
    (reads : change.Reads lib cmd) : changeOf lib cmd result = some change := by
  cases change <;> simp [changeOf, applied, reads.1, reads.2]

theorem recorded_effect (recorded : Recorded past app)
    (effect : Effect lib ctx cmd app result after) :
    Recorded (past ++ (changeOf lib cmd result).toList) after := by
  obtain ⟨clients, policies⟩ := recorded
  cases effect with
  | rejected code msg =>
      rw [show changeOf lib cmd (rejection cmd.type code msg) = none from rfl]
      simpa using ⟨clients, policies⟩
  | createdPolicy p name typed payload shape named bounds absent =>
      rw [changeOf_applied (.createPolicy p) rfl ⟨typed, payload⟩]
      refine ⟨clients_kept clients rfl (fun _ => rfl) fun _ => id, ?_⟩
      refine policies_put (p.policy name cmd.timestampMS) policies
        (getPolicy_put app _ p.id) (Or.inl rfl) (Or.inl ?_) (Or.inl ?_) ?_
      · exact if_pos rfl
      · exact if_pos rfl
      · intro id different
        exact ⟨if_neg (Ne.symm different), if_neg (Ne.symm different)⟩
  | updatedPolicy p old name visited tokenBuckets typed payload found current named bounds walked
      written =>
      have own := policies.keyed p.id old found
      have before : app.getPolicy old.id = some old := by rw [own, found]
      rw [changeOf_applied (.updatePolicy p) rfl ⟨typed, payload⟩]
      refine ⟨clients_kept clients rfl (fun _ => rfl) fun _ => id, ?_⟩
      refine policies_put (p.policy old name cmd.timestampMS) policies
        (getPolicy_put app _ old.id) (Or.inr ⟨old, before⟩) (Or.inr ⟨rfl, ?_⟩) (Or.inl ?_) ?_
      · change (app.getPolicy old.id).map _ = _
        rw [before]
        rfl
      · exact if_pos own.symm
      · intro id different
        exact ⟨rfl, if_neg fun same => different (same.symm.trans own.symm)⟩
  | switchedPolicy p old typed payload found current =>
      have own := policies.keyed p.id old found
      have before : app.getPolicy old.id = some old := by rw [own, found]
      rw [changeOf_applied (.setPolicyActive p) rfl ⟨typed, payload⟩]
      refine ⟨clients_kept clients rfl (fun _ => rfl) fun _ => id, ?_⟩
      refine policies_put (p.policy old cmd.timestampMS) policies
        (getPolicy_put app _ old.id) (Or.inr ⟨old, before⟩) (Or.inl ?_) (Or.inr ⟨rfl, ?_⟩) ?_
      · exact if_pos own.symm
      · change (app.getPolicy old.id).map _ = _
        rw [before]
        rfl
      · intro id different
        exact ⟨if_neg fun same => different (same.symm.trans own.symm), rfl⟩
  | createdClient p name typed payload named listed filled absent free existing =>
      rw [changeOf_applied (.createClient p) rfl ⟨typed, payload⟩]
      exact ⟨clients_created clients listed absent (getClient_put app _ p.id),
        policies_kept policies rfl (fun _ => rfl) fun _ => rfl⟩
  | revokedAgain p old typed payload found inactive =>
      rw [changeOf_applied (.revokeClient p) rfl ⟨typed, payload⟩]
      refine ⟨clients_revoked old clients found rfl rfl inactive fun id => ?_,
        policies_kept policies rfl (fun _ => rfl) fun _ => rfl⟩
      split
      · rename_i same
        rw [same, found]
      · rfl
  | revokedClient p old typed payload found active =>
      have own := clients.keyed p.id old found
      rw [changeOf_applied (.revokeClient p) rfl ⟨typed, payload⟩]
      refine ⟨clients_revoked (old.revoked cmd.timestampMS) clients found rfl rfl rfl ?_,
        policies_kept policies rfl (fun _ => rfl) fun _ => rfl⟩
      rw [← own]
      exact getClient_put app _ old.id
  | replayed p prior typed payload shape found same =>
      rw [changeOf_decided prior.allowed rfl]
      simpa using ⟨clients, policies⟩
  | charged p policy bucket settled allowed retryAfter tokenBuckets idempotency typed payload shape
      fresh authorized loaded spent charged recorded =>
      rw [changeOf_decided allowed rfl]
      simpa using ⟨⟨clients.keyed, clients.listed, clients.active, clients.revoked⟩,
        ⟨policies.keyed, policies.created, policies.active, policies.price⟩⟩
  | pruned p typed payload =>
      have change (r : Result) (applied : r.outcome = .applied) : changeOf lib cmd r = none := by
        simp [changeOf, applied, typed]
      rw [change _ rfl]
      simpa using ⟨⟨clients.keyed, clients.listed, clients.active, clients.revoked⟩,
        ⟨policies.keyed, policies.created, policies.active, policies.price⟩⟩

theorem authorize_granted {p : DecidePayload} {client : Client} {policy : Policy}
    (known : app.getClient p.clientID = some client) (active : client.active = true)
    (allows : client.allowsPolicy p.policyID = true)
    (found : app.getPolicy p.policyID = some policy) (running : policy.active = true)
    (price : p.cost ≤ policy.maxCostTokens) : authorize app p = .ok policy := by
  simp only [authorize, known, active, allows, found, running, Bool.not_true, Bool.false_eq_true,
    if_false]
  rw [if_neg (Int64.not_lt.mpr price)]

theorem allowsPolicy_iff {client : Client} {policyID : String}
    (listed : "*" ∈ client.allowedPolicyIDs → client.allowedPolicyIDs = ["*"]) :
    client.allowsPolicy policyID = true ↔
      client.allowedPolicyIDs = ["*"] ∨ policyID ∈ client.allowedPolicyIDs := by
  simp only [Client.allowsPolicy, List.any_eq_true, decide_eq_true_eq]
  constructor
  · rintro ⟨allowed, member, rfl | rfl⟩
    · exact Or.inl (listed member)
    · exact Or.inr member
  · rintro (star | member)
    · exact ⟨"*", by simp [star], Or.inl rfl⟩
    · exact ⟨policyID, member, Or.inr rfl⟩

theorem authorized_iff {p : DecidePayload} (recorded : Recorded past app) :
    Authorized past p ↔ ∃ policy, authorize app p = .ok policy := by
  obtain ⟨clients, policies⟩ := recorded
  constructor
  · rintro ⟨⟨allowed, since, lists⟩, _, active, most, latest, cost⟩
    obtain ⟨client, known, running, rfl⟩ := (clients.active _ _).mpr since
    obtain ⟨policy, found, on⟩ := Option.map_eq_some_iff.mp ((policies.active _ _).mpr active)
    have priced := (policies.price _ _).mpr latest
    rw [found, Option.map_some, Option.some.injEq] at priced
    have allows := (allowsPolicy_iff (clients.listed _ client known)).mpr lists
    exact ⟨policy, authorize_granted known running allows found on (priced ▸ cost)⟩
  · rintro ⟨policy, authorized⟩
    obtain ⟨found, on, cost, client, known, running, allows⟩ := authorize_ok authorized
    refine ⟨⟨_, (clients.active _ _).mp ⟨client, known, running, rfl⟩, ?_⟩,
      policies.created _ policy found, (policies.active _ _).mp ?_, policy.maxCostTokens,
      (policies.price _ _).mp ?_, Int64.le_iff_toInt_le.mpr cost⟩
    · exact (allowsPolicy_iff (clients.listed _ client known)).mp allows
    · rw [found, Option.map_some, on]
    · rw [found, Option.map_some]

theorem decide_fresh {p : DecidePayload} (typed : cmd.type = .decide)
    (payload : lib.decide cmd.payload = some p)
    (shape : validateDecisionInput p.policyID p.subject p.requestID p.cost = .ok ())
    (fresh : app.decision p.clientID p.requestID = none)
    (ran : applyTx lib ctx cmd app = .ok (result, after)) :
    (∃ refusal, authorize app p = .error refusal ∧ result.outcome = .rejected ∧ after = app) ∨
      ∃ policy allowed, authorize app p = .ok policy ∧ result.outcome = decided allowed := by
  rw [applyTx, typed] at ran
  obtain ⟨q, decoded, ran⟩ := bind_ok ran
  cases payload.symm.trans (unmarshalPayload_ok decoded)
  simp only [validated, shape] at ran
  obtain ⟨found, looked, ran⟩ := bind_ok ran
  have stored : app.decision p.clientID p.requestID = found := getPair_ok (mapError_ok looked)
  rw [fresh] at stored
  subst stored
  cases authorized : authorize app p with
  | error refusal =>
      simp only [authorized] at ran
      cases ran
      exact Or.inl ⟨refusal, rfl, rfl, rfl⟩
  | ok policy =>
      simp only [authorized] at ran
      obtain ⟨bucket, _, ran⟩ := bind_ok ran
      obtain ⟨charged, _, ran⟩ := bind_ok ran
      obtain ⟨recorded, _, ran⟩ := bind_ok ran
      cases ran
      exact Or.inr ⟨policy, _, rfl, rfl⟩

theorem inactive_uncharged {p : DecidePayload} {client : Client}
    (effect : Effect lib ctx cmd app result after) (typed : cmd.type = .decide)
    (payload : lib.decide cmd.payload = some p) (known : app.getClient p.clientID = some client)
    (inactive : client.active = false) : after.tokenBuckets = app.tokenBuckets := by
  rcases effect_decide effect typed payload with ⟨rfl, _⟩ | ⟨_, _, _, _, _, _, _, _, _, authorized, _⟩
  · rfl
  · obtain ⟨_, _, _, stored, found, active, _⟩ := authorize_ok authorized
    cases known.symm.trans found
    cases inactive.symm.trans active

end Steps

section Runs

variable {lib : Stdlib}

theorem changes_snoc (past : List Step) (step : Step) :
    changes lib (past ++ [step]) =
      changes lib past ++ (changeOf lib step.cmd step.result).toList := by
  rw [changes, List.filterMap_append, List.filterMap_cons]
  cases changeOf lib step.cmd step.result <;> rfl

theorem recorded_history (state : Nat × AppState) (commands : List (ApplyContext × Command))
    (past more rest : List Step) (step : Step) (recorded : Recorded (changes lib past) state.2)
    (ran : history lib state commands = more ++ step :: rest) :
    Recorded (changes lib (past ++ more)) step.before.2 ∧
      apply lib step.ctx step.cmd step.before = .ok (step.result, step.after) := by
  obtain ⟨earlier, later, rfl, before, reached, applied⟩ := history_at ran
  refine ⟨?_, applied⟩
  have kept : Recorded (changes lib (past ++ history lib state earlier))
      (finish lib state earlier).2 := by
    refine history_keeps (fun past state => Recorded (changes lib past) state.2) state past ?_
      recorded
    intro command member past before result after recorded ran
    rw [changes_snoc]
    exact recorded_effect recorded (apply_effect ran).2
  rw [before, reached] at kept
  exact kept

end Runs

/-- Let a command be applied after others, from the migrated store on. If it is a decide
of the right shape with no stored record, it makes a decision exactly when the
commands before it authorize it, and otherwise it is refused and changes nothing. And
once a client id was revoked, the command does not create it, leaves it inactive, and
charges nobody on its behalf. -/
theorem authorized_by_history (lib : Stdlib) (commands : List (ApplyContext × Command))
    (past rest : List Step) (step : Step)
    (ran : history lib (0, AppState.migrated) commands = past ++ step :: rest) :
    (∀ p, step.cmd.type = .decide → lib.decide step.cmd.payload = some p →
      validateDecisionInput p.policyID p.subject p.requestID p.cost = .ok () →
      step.before.2.decision p.clientID p.requestID = none →
        (step.result.outcome = .allowed ∨ step.result.outcome = .denied ↔
          Authorized (changes lib past) p) ∧
        (¬ Authorized (changes lib past) p → step.result.outcome = .rejected ∧
          step.after.2 = step.before.2)) ∧
    ∀ id, (∃ change ∈ changes lib past, change.revokes id) →
      (∀ change ∈ changeOf lib step.cmd step.result, change.grants id = none) ∧
      (∃ client, step.after.2.getClient id = some client ∧ client.active = false) ∧
      ∀ p, step.cmd.type = .decide → lib.decide step.cmd.payload = some p → p.clientID = id →
        step.after.2.tokenBuckets = step.before.2.tokenBuckets := by
  have start : Recorded (changes lib []) AppState.migrated := recorded_migrated
  obtain ⟨recorded, applied⟩ := recorded_history _ commands [] past rest step start ran
  rw [List.nil_append] at recorded
  have effect := (apply_effect applied).2
  have next := recorded_effect recorded effect
  refine ⟨?_, ?_⟩
  · intro p typed payload shape fresh
    rw [authorized_iff recorded]
    rcases decide_fresh typed payload shape fresh (apply_ok applied).2 with
      ⟨refusal, refused, rejected, kept⟩ | ⟨policy, allowed, granted, outcome⟩
    · refine ⟨?_, fun _ => ⟨rejected, kept⟩⟩
      simp [rejected, refused]
    · refine ⟨?_, fun denied => absurd ⟨policy, granted⟩ denied⟩
      rw [outcome]
      cases allowed <;> simp [decided, granted]
  · intro id revoked
    obtain ⟨client, found, inactive⟩ := next.clients.revoked id (by
      obtain ⟨change, member, revokes⟩ := revoked
      exact ⟨change, by simp [member], revokes⟩)
    refine ⟨?_, ⟨client, found, inactive⟩, ?_⟩
    · intro change made
      cases granted : change.grants id with
      | none => rfl
      | some allowed =>
          rw [Option.mem_def.mp made] at next
          obtain ⟨other, stored, active, _⟩ :=
            (next.clients.active id allowed).mpr (since_snoc.mpr (Or.inl granted))
          cases found.symm.trans stored
          cases inactive.symm.trans active
    · rintro p typed payload rfl
      obtain ⟨before, known, stopped⟩ := recorded.clients.revoked p.clientID revoked
      exact inactive_uncharged effect typed payload known stopped

def revokedRun : List (ApplyContext × Command) :=
  sampleCommands 1 [[0, 0, 5, 2], [3, 0], [5, 1, 1, 3], [4, 2], [5, 3, 2, 1]]

theorem history_split {lib : Stdlib} {commands : List (ApplyContext × Command)} {index : Nat}
    {step : Step} (found : (history lib (0, AppState.migrated) commands)[index]? = some step) :
    history lib (0, AppState.migrated) commands =
      (history lib (0, AppState.migrated) commands).take index ++
        step :: (history lib (0, AppState.migrated) commands).drop (index + 1) := by
  obtain ⟨bound, rfl⟩ := List.getElem?_eq_some_iff.mp found
  rw [List.getElem_cons_drop, List.take_append_drop]

def requestOf (cost : Int64) (requestID : String) : DecidePayload :=
  ⟨"client-a", "orders", "alice", cost, requestID, "client"⟩

def readStep (requestID : String) (step : Step) :
    CommandType × Option DecidePayload × Outcome × Option DecisionRecord :=
  (step.cmd.type, sampleLib.decide step.cmd.payload, step.result.outcome,
    step.before.2.decision "client-a" requestID)

theorem authorized_by_history_sample :
    Authorized (changes sampleLib ((history sampleLib (0, AppState.migrated) revokedRun).take 2))
        (requestOf 3 "request-000000001") ∧
      ¬ Authorized
        (changes sampleLib ((history sampleLib (0, AppState.migrated) revokedRun).take 4))
        (requestOf 1 "request-000000002") := by
  have early : (history sampleLib (0, AppState.migrated) revokedRun)[2]?.map
      (readStep "request-000000001") =
      some (.decide, some (requestOf 3 "request-000000001"), .allowed, none) := by decide +kernel
  have late : (history sampleLib (0, AppState.migrated) revokedRun)[4]?.map
      (readStep "request-000000002") =
      some (.decide, some (requestOf 1 "request-000000002"), .rejected, none) := by decide +kernel
  obtain ⟨first, found, facts⟩ := Option.map_eq_some_iff.mp early
  obtain ⟨second, reached, others⟩ := Option.map_eq_some_iff.mp late
  simp only [readStep, Prod.mk.injEq] at facts others
  refine ⟨?_, ?_⟩
  · exact ((authorized_by_history sampleLib revokedRun _ _ first (history_split found)).1 _
      facts.1 facts.2.1 (by decide +kernel) facts.2.2.2).1.mp (Or.inl facts.2.2.1)
  · rw [← ((authorized_by_history sampleLib revokedRun _ _ second (history_split reached)).1 _
      others.1 others.2.1 (by decide +kernel) others.2.2.2).1, others.2.2.1]
    decide

end QuorumLimiter.Limiter
