import QuorumLimiter.Limiter.TwoStores

/-!
Subjects do not interfere. A log is run twice, the second time with the decisions on
all but one subject of one policy taken out; the stores then differ in the buckets and
records of the others only, which no decision on that subject reads.
-/

namespace QuorumLimiter.Limiter

section Masking

def DecidePayload.content (p : DecidePayload) : String × String × Int64 :=
  (p.policyID, p.subject, p.cost)

def DecisionRecord.content (d : DecisionRecord) : String × String × Int64 :=
  (d.policyID, d.subject, d.costTokens)

variable (lib : Stdlib) (policyID subject : String)

def decideOf (entry : LogEntry) : Option DecidePayload :=
  if entry.kind ≠ .command then none
  else (lib.command entry.command).bind fun cmd =>
    if cmd.type = .decide then lib.decide cmd.payload else none

def DecidePayload.on (p : DecidePayload) : Prop := p.policyID = policyID ∧ p.subject = subject

instance decidableOn (p : DecidePayload) : Decidable (p.on policyID subject) :=
  inferInstanceAs (Decidable (_ ∧ _))

/-- A no-op in place of a decide on another subject or policy. -/
def masked (entry : LogEntry) : LogEntry :=
  match decideOf lib entry with
  | none => entry
  | some p =>
      if p.on policyID subject then entry else { entry with kind := .noop, command := [] }

def Consistent (requests : List DecidePayload) : Prop :=
  ∀ p ∈ requests, ∀ q ∈ requests, p.clientID = q.clientID → p.requestID = q.requestID →
    p.content = q.content

/-- The record under the ids of a request has the content of the request. -/
def Filed (requests : List DecidePayload) (app : AppState) : Prop :=
  ∀ p ∈ requests, ∀ d ∈ app.decision p.clientID p.requestID, d.content = p.content

/-- No decide of the log shares its client and request ids with another of different
content, nor with a stored record of different content. -/
def NoReuse (app : AppState) (entries : List LogEntry) : Prop :=
  Consistent (entries.filterMap (decideOf lib)) ∧ Filed (entries.filterMap (decideOf lib)) app

end Masking

section Records

variable {lib : Stdlib} {ctx : ApplyContext} {cmd : Command} {app after : AppState}
  {result : Result} {requests : List DecidePayload}

theorem decision_pruned (app : AppState) (cutoff : Int64) (clientID requestID : String)
    (d : DecisionRecord) :
    lookupPair ((expiredKeys app cutoff).foldl Bucket.delete app.idempotency) (bytesOf clientID)
        (bytesOf requestID) = some d ↔
      app.decision clientID requestID = some d ∧ ¬d.expiresAtMS ≤ cutoff := by
  rw [AppState.decision, lookupPair_eq_some_iff, lookupPair_eq_some_iff]
  simp only [Bucket.get_foldl_delete]
  constructor
  · rintro ⟨key, encoded, stored⟩
    split at stored
    · contradiction
    · rename_i kept
      exact ⟨⟨key, encoded, stored⟩, fun late => kept ((mem_expiredKeys stored cutoff).mpr late)⟩
  · rintro ⟨⟨key, encoded, stored⟩, early⟩
    refine ⟨key, encoded, ?_⟩
    rw [if_neg fun member => early ((mem_expiredKeys stored cutoff).mp member), stored]

theorem filed_effect (filed : Filed requests app) (alike : Consistent requests)
    (listed : cmd.type = .decide → ∀ p, lib.decide cmd.payload = some p → p ∈ requests)
    (effect : Effect lib ctx cmd app result after) : Filed requests after := by
  cases effect with
  | charged p policy bucket settled allowed retryAfter tokenBuckets idempotency typed payload shape
      fresh authorized loaded spent charged recorded =>
      intro q member d found
      replace found := (lookupPair_stored recorded _ _).symm.trans found
      split at found
      · rename_i same
        cases found
        exact (alike q member p (listed typed p payload) same.1 same.2).symm
      · exact filed q member d found
  | pruned p typed payload =>
      intro q member d found
      exact filed q member d ((decision_pruned _ _ _ _ _).mp found).1
  | _ => exact filed

end Records

/-- The stores of the two runs: they differ in token buckets and records of others. -/
structure Agree (policyID subject : String) (left right : AppState) : Prop where
  policies : left.policies = right.policies
  clients : left.clients = right.clients
  prefixes : left.clientPrefix = right.clientPrefix
  bucket : left.tokenBucket policyID subject = right.tokenBucket policyID subject
  records : ∀ clientID requestID d, d.policyID = policyID → d.subject = subject →
    (left.decision clientID requestID = some d ↔ right.decision clientID requestID = some d)

section Agreeing

variable {lib : Stdlib} {ctx : ApplyContext} {cmd : Command} {policyID subject : String}
  {left right : AppState} {shown : Prop}

theorem agree_getPolicy (agree : Agree policyID subject left right) (id : String) :
    left.getPolicy id = right.getPolicy id := by
  rw [AppState.getPolicy, agree.policies]
  rfl

theorem agree_getClient (agree : Agree policyID subject left right) (id : String) :
    left.getClient id = right.getClient id := by
  rw [AppState.getClient, agree.clients]
  rfl

theorem agree_uniform (policyID subject : String) : Uniform (Agree policyID subject) where
  clients agree := agree.clients
  prefixes agree := agree.prefixes
  absent agree id := by rw [agree_getPolicy agree]
  putClients agree _ := ⟨agree.policies, rfl, agree.prefixes, agree.bucket, agree.records⟩
  putPrefixes agree _ := ⟨agree.policies, agree.clients, rfl, agree.bucket, agree.records⟩
  putPolicy agree _ _ :=
    ⟨by rw [agree.policies], agree.clients, agree.prefixes, agree.bucket, agree.records⟩
  putAudit agree _ _ := ⟨agree.policies, agree.clients, agree.prefixes, agree.bucket, agree.records⟩

/-- Storing one policy in both, with an event each. -/
theorem agree_putPolicy {policy : Policy} {result : Result} {index : Nat} {one two : AuditEvent}
    (agree : Agree policyID subject left right) :
    Matched shown (Agree policyID subject)
      (storing (left.putPolicy policy) >>= fun stored => .ok (result, stored.putAudit index one))
      (storing (right.putPolicy policy) >>= fun stored => .ok (result, stored.putAudit index two)) := by
  refine matched_put left.policies right.policies _ _ _ ?_
  rw [agree.policies]
  exact matched_ok ⟨rfl, agree.clients, agree.prefixes, agree.bucket, agree.records⟩

theorem setPolicyActive_agrees (agree : Agree policyID subject left right) :
    Matched shown (Agree policyID subject) (applySetPolicyActive lib ctx cmd left)
      (applySetPolicyActive lib ctx cmd right) := by
  refine matched_unmarshal fun p _ => ?_
  rw [agree_getPolicy agree]
  cases right.getPolicy p.id with
  | none => exact matched_ok agree
  | some old => exact matched_ite (matched_ok agree) fun _ => agree_putPolicy agree

theorem updatePolicy_agrees (agree : Agree policyID subject left right) (keyedLeft : Keyed left)
    (keyedRight : Keyed right) :
    Matched shown (Agree policyID subject) (applyUpdatePolicy lib ctx cmd left)
      (applyUpdatePolicy lib ctx cmd right) := by
  -- The walk of an update visits other buckets in the two stores, but it fails in neither and
  -- converts the one both have alike.
  refine matched_unmarshal fun p _ => ?_
  rw [agree_getPolicy agree]
  cases found : right.getPolicy p.id with
  | none => exact matched_ok agree
  | some old =>
      refine matched_ite (matched_ok agree) fun _ => ?_
      refine matched_validated agree fun name _ => ?_
      refine matched_validated agree fun _ _ => ?_
      obtain ⟨visitedLeft, convertedLeft, walkedLeft, writtenLeft⟩ :=
        converting_returns keyedLeft ((agree_getPolicy agree p.id).trans found) cmd.timestampMS
      obtain ⟨visitedRight, convertedRight, walkedRight, writtenRight⟩ :=
        converting_returns keyedRight found cmd.timestampMS
      have bucketLeft := converted_tokenBucket (keyed_ownKeys keyedLeft) walkedLeft writtenLeft
        policyID subject
      have bucketRight := converted_tokenBucket (keyed_ownKeys keyedRight) walkedRight writtenRight
        policyID subject
      have same : Agree policyID subject convertedLeft convertedRight := by
        rw [writeBuckets_frame writtenLeft] at bucketLeft ⊢
        rw [writeBuckets_frame writtenRight] at bucketRight ⊢
        refine ⟨agree.policies, agree.clients, agree.prefixes, ?_, agree.records⟩
        rw [bucketLeft, bucketRight, agree.bucket]
      apply matched_bind
      refine Or.inr ⟨visitedLeft, visitedRight, wrapped_ok walkedLeft, wrapped_ok walkedRight, ?_⟩
      apply matched_bind
      refine Or.inr ⟨convertedLeft, convertedRight, wrapped_ok writtenLeft,
        wrapped_ok writtenRight, ?_⟩
      exact agree_putPolicy same

theorem charge_agrees {p : DecidePayload} {policy : Policy}
    (agree : Agree policyID subject left right) (keyed : Keyed left) (own : policy.id = policyID)
    (named : p.subject = subject) :
    Matched shown (Agree policyID subject) (charge lib ctx cmd left p policy)
      (charge lib ctx cmd right p policy) := by
  have loads : loadOrInitBucket left policy p.subject cmd.timestampMS =
      loadOrInitBucket right policy p.subject cmd.timestampMS := by
    have looked : left.getTokenBucket policy.id p.subject =
        right.getTokenBucket policy.id p.subject :=
      getPair_congr (own.symm ▸ named.symm ▸ agree.bucket)
    rw [loadOrInitBucket, looked]
    rfl
  unfold charge
  rw [← loads]
  cases loaded : loadOrInitBucket left policy p.subject cmd.timestampMS with
  | error error => exact Or.inl ⟨.store error, rfl, rfl⟩
  | ok bucket =>
      obtain ⟨owner, holder⟩ := loadOrInitBucket_owner (keyed_ownKeys keyed) loaded
      refine matched_bind (Or.inr ⟨bucket, bucket, rfl, rfl, ?_⟩)
      cases spent : settle ctx cmd p policy bucket with
      | mk settled rest =>
          obtain ⟨keptOwner, keptHolder⟩ := settle_owner spent
          refine matched_store
            ((putPair_alike left.tokenBuckets right.tokenBuckets _ _ settled settled).imp_right ?_)
          rintro ⟨bucketsLeft, bucketsRight, chargedLeft, chargedRight⟩
          refine ⟨bucketsLeft, bucketsRight, chargedLeft, chargedRight, ?_⟩
          refine matched_store
            ((putPair_alike left.idempotency right.idempotency _ _ _ _).imp_right ?_)
          rintro ⟨recordsLeft, recordsRight, recordedLeft, recordedRight⟩
          refine ⟨recordsLeft, recordsRight, recordedLeft, recordedRight, ?_⟩
          refine matched_audited (agree_uniform policyID subject)
            ⟨agree.policies, agree.clients, agree.prefixes, ?_, ?_⟩
          · refine (lookupPair_stored chargedLeft _ _).trans ?_
            refine Eq.trans ?_ (lookupPair_stored chargedRight _ _).symm
            rw [keptOwner, keptHolder, owner, holder, own, named, if_pos ⟨rfl, rfl⟩,
              if_pos ⟨rfl, rfl⟩]
          · intro clientID requestID d onPolicy onSubject
            have before := agree.records clientID requestID d onPolicy onSubject
            simp only [AppState.decision, lookupPair_stored recordedLeft,
              lookupPair_stored recordedRight]
            split
            · exact Iff.rfl
            · exact before

theorem agree_decision {requests : List DecidePayload} {p : DecidePayload}
    (agree : Agree policyID subject left right) (filedLeft : Filed requests left)
    (filedRight : Filed requests right) (member : p ∈ requests) (on : p.on policyID subject) :
    left.decision p.clientID p.requestID = right.decision p.clientID p.requestID := by
  have mine : ∀ d : DecisionRecord, d.content = p.content → d.policyID = policyID ∧
      d.subject = subject := by
    intro d same
    obtain ⟨policies, rest⟩ := Prod.mk.inj same
    exact ⟨policies.trans on.1, (Prod.mk.inj rest).1.trans on.2⟩
  ext d
  constructor
  · intro found
    obtain ⟨onPolicy, onSubject⟩ := mine d (filedLeft p member d found)
    exact (agree.records _ _ d onPolicy onSubject).mp found
  · intro found
    obtain ⟨onPolicy, onSubject⟩ := mine d (filedRight p member d found)
    exact (agree.records _ _ d onPolicy onSubject).mpr found

theorem decide_agrees (agree : Agree policyID subject left right) (keyed : Keyed left)
    (reads : ∀ p, lib.decide cmd.payload = some p → p.on policyID subject ∧
      left.decision p.clientID p.requestID = right.decision p.clientID p.requestID) :
    Matched shown (Agree policyID subject) (applyDecide lib ctx cmd left)
      (applyDecide lib ctx cmd right) := by
  refine matched_unmarshal fun p payload => ?_
  obtain ⟨on, same⟩ := reads p payload
  have looked : left.getIdempotency p.clientID p.requestID =
      right.getIdempotency p.clientID p.requestID := getPair_congr same
  have checked : authorize left p = authorize right p := by
    rw [authorize, agree_getClient agree, agree_getPolicy agree]
    rfl
  refine matched_validated agree fun _ _ => ?_
  rw [looked]
  cases right.getIdempotency p.clientID p.requestID with
  | error error => exact Or.inl ⟨.store error, rfl, rfl⟩
  | ok found =>
      refine matched_bind (Or.inr ⟨found, found, rfl, rfl, ?_⟩)
      cases found with
      | some prior => exact matched_ite (matched_ok agree) fun _ => matched_ok agree
      | none =>
          rw [checked]
          cases authorized : authorize right p with
          | error refusal => exact matched_ok agree
          | ok policy =>
              rw [← checked] at authorized
              obtain ⟨own, _⟩ := keyed_getPolicy keyed (authorize_ok authorized).1
              exact charge_agrees agree keyed (own.trans on.1) on.2

theorem agree_pruned {auditLeft auditRight : Bucket Nat AuditEvent} (cutoff : Int64)
    (agree : Agree policyID subject left right) :
    Agree policyID subject
      { left with
        idempotency := (expiredKeys left cutoff).foldl Bucket.delete left.idempotency
        audit := auditLeft }
      { right with
        idempotency := (expiredKeys right cutoff).foldl Bucket.delete right.idempotency
        audit := auditRight } := by
  refine ⟨agree.policies, agree.clients, agree.prefixes, agree.bucket, ?_⟩
  intro clientID requestID d onPolicy onSubject
  refine (decision_pruned left cutoff clientID requestID d).trans ?_
  refine Iff.trans ?_ (decision_pruned right cutoff clientID requestID d).symm
  exact and_congr_left' (agree.records clientID requestID d onPolicy onSubject)

theorem prune_agrees (agree : Agree policyID subject left right) (hidden : ¬shown) :
    Matched shown (Agree policyID subject) (applyPrune lib cmd left)
      (applyPrune lib cmd right) := by
  -- A prune may remove other records and count others in the two stores.
  refine matched_unmarshal fun p _ => ?_
  simp only [foldl_deleteIdempotency, foldl_deleteAudit]
  exact matched_hidden hidden (agree_pruned cmd.timestampMS agree)

end Agreeing

section Steps

variable {lib : Stdlib} {ctx : ApplyContext} {cmd : Command} {policyID subject : String}
  {left right : AppState}

theorem command_agrees {requests : List DecidePayload} (agree : Agree policyID subject left right)
    (keyedLeft : Keyed left) (keyedRight : Keyed right) (filedLeft : Filed requests left)
    (filedRight : Filed requests right)
    (listed : cmd.type = .decide → ∀ p, lib.decide cmd.payload = some p →
      p ∈ requests ∧ p.on policyID subject) :
    Matched (cmd.type = .decide) (Agree policyID subject) (applyTx lib ctx cmd left)
      (applyTx lib ctx cmd right) := by
  unfold applyTx
  cases typed : cmd.type with
  | createPolicy => exact createPolicy_matched (agree_uniform _ _) agree
  | updatePolicy => exact updatePolicy_agrees agree keyedLeft keyedRight
  | setPolicyActive => exact setPolicyActive_agrees agree
  | createClient => exact createClient_matched (agree_uniform _ _) agree
  | revokeClient => exact revokeClient_matched (agree_uniform _ _) agree
  | decide =>
      refine decide_agrees agree keyedLeft fun p payload => ?_
      obtain ⟨member, on⟩ := listed typed p payload
      exact ⟨on, agree_decision agree filedLeft filedRight member on⟩
  | prune => exact prune_agrees agree (by simp)
  | unknown name => exact Or.inl ⟨.unknownCommand name, rfl, rfl⟩

theorem hidden_agrees {p : DecidePayload} {result : Result} {after : AppState}
    (agree : Agree policyID subject left right) (keyed : Keyed left) (typed : cmd.type = .decide)
    (payload : lib.decide cmd.payload = some p) (other : ¬p.on policyID subject)
    (effect : Effect lib ctx cmd left result after) : Agree policyID subject after right := by
  rcases effect_decide effect typed payload with ⟨rfl, _⟩ | ⟨policy, bucket, settled, allowed,
    retryAfter, tokenBuckets, idempotency, audit, fresh, authorized, loaded, spent, charged, recorded,
    rfl, _⟩
  · exact agree
  obtain ⟨own, _⟩ := keyed_getPolicy keyed (authorize_ok authorized).1
  obtain ⟨owner, holder⟩ := loadOrInitBucket_owner (keyed_ownKeys keyed) loaded
  obtain ⟨keptOwner, keptHolder⟩ := settle_owner spent
  refine ⟨agree.policies, agree.clients, agree.prefixes, ?_, ?_⟩
  · refine (lookupPair_stored charged _ _).trans ?_
    rw [keptOwner, owner, own, keptHolder, holder, if_neg]
    · exact agree.bucket
    · exact fun same => other ⟨same.1.symm, same.2.symm⟩
  · intro clientID requestID d onPolicy onSubject
    have before := agree.records clientID requestID d onPolicy onSubject
    rw [← before, AppState.decision, lookupPair_stored recorded]
    split
    · rename_i same
      obtain ⟨rfl, rfl⟩ := same
      -- The record is new and of another subject, so neither store has the one asked for.
      rw [fresh]
      refine iff_of_false ?_ (by simp)
      rintro ⟨⟩
      exact other ⟨onPolicy, onSubject⟩
    · exact Iff.rfl

end Steps

section Runs

variable {lib : Stdlib} {policyID subject : String} {requests : List DecidePayload}
  {state : Nat × AppState} {entry : LogEntry} {cmd : Command}

structure Kept (requests : List DecidePayload) (app : AppState) : Prop where
  keyed : Keyed app
  filed : Filed requests app

theorem kept_effect {ctx : ApplyContext} {app after : AppState} {result : Result}
    (kept : Kept requests app) (alike : Consistent requests)
    (listed : cmd.type = .decide → ∀ p, lib.decide cmd.payload = some p → p ∈ requests)
    (effect : Effect lib ctx cmd app result after) : Kept requests after :=
  ⟨keyed_effect kept.keyed effect, filed_effect kept.filed alike listed effect⟩

theorem decideOf_command (kind : entry.kind = .command)
    (read : lib.command entry.command = some cmd) :
    decideOf lib entry = if cmd.type = .decide then lib.decide cmd.payload else none := by
  rw [decideOf, if_neg (not_not.mpr kind), read]
  rfl

theorem decideOf_some {p : DecidePayload} (asked : decideOf lib entry = some p) :
    ∃ cmd, entry.kind = .command ∧ lib.command entry.command = some cmd ∧ cmd.type = .decide ∧
      lib.decide cmd.payload = some p := by
  unfold decideOf at asked
  split at asked
  · contradiction
  · rename_i kind
    obtain ⟨cmd, read, asked⟩ := Option.bind_eq_some_iff.mp asked
    split at asked
    · rename_i typed
      exact ⟨cmd, not_not.mp kind, read, typed, asked⟩
    · contradiction

theorem masked_kept (shows : ∀ p, decideOf lib entry = some p → p.on policyID subject) :
    masked lib policyID subject entry = entry := by
  unfold masked
  split
  · rfl
  · rename_i p asked
    rw [if_pos (shows p asked)]

theorem masked_hidden {p : DecidePayload} (asked : decideOf lib entry = some p)
    (other : ¬p.on policyID subject) :
    masked lib policyID subject entry = { entry with kind := .noop, command := [] } := by
  rw [masked, asked]
  exact if_neg other

structure Twins (requests : List DecidePayload) (policyID subject : String)
    (left right : Nat × AppState) : Prop where
  first : Kept requests left.2
  second : Kept requests right.2
  agree : Agree policyID subject left.2 right.2

variable {left right : Nat × AppState}

theorem decideOf_asked {p : DecidePayload} (kind : entry.kind = .command)
    (read : lib.command entry.command = some cmd) (typed : cmd.type = .decide)
    (payload : lib.decide cmd.payload = some p) : decideOf lib entry = some p := by
  rw [decideOf_command kind read, if_pos typed, payload]

theorem kept_next (alike : Consistent requests)
    (listed : ∀ p, decideOf lib entry = some p → p ∈ requests) (kept : Kept requests state.2) :
    Kept requests (applyNext lib state entry).2.2 :=
  applyNext_keeps (Kept requests)
    (fun _ _ _ kind read effect => kept_effect kept alike
      (fun typed p payload => listed p (decideOf_asked kind read typed payload)) effect) kept

theorem twins_shown (twins : Twins requests policyID subject left right)
    (alike : Consistent requests) (listed : ∀ p, decideOf lib entry = some p → p ∈ requests)
    (shows : ∀ p, decideOf lib entry = some p → p.on policyID subject) :
    Twins requests policyID subject (applyNext lib left entry).2 (applyNext lib right entry).2 ∧
      ((decideOf lib entry).isSome →
        (applyNext lib left entry).1 = (applyNext lib right entry).1) := by
  obtain ⟨first, second, agree⟩ := twins
  have commands : Option.Rel Eq (lib.command entry.command) (lib.command entry.command) := by
    cases lib.command entry.command with
    | none => exact Option.Rel.none
    | some cmd => exact Option.Rel.some rfl
  have matched : ∀ cmd other, entry.kind = .command → lib.command entry.command = some cmd →
      cmd = other → Matched (cmd.type = .decide) (Agree policyID subject)
        (applyTx lib ⟨entry.index, entry.term⟩ cmd left.2)
        (applyTx lib ⟨entry.index, entry.term⟩ other right.2) := by
    rintro cmd _ kind read rfl
    refine command_agrees agree first.keyed second.keyed first.filed second.filed ?_
    intro typed p payload
    have asked := decideOf_asked kind read typed payload
    exact ⟨listed p asked, shows p asked⟩
  obtain ⟨agrees, answered⟩ := applyNext_matched rfl rfl rfl commands matched agree
  refine ⟨⟨kept_next alike listed first, kept_next alike listed second, agrees⟩, fun asked => ?_⟩
  obtain ⟨p, asked⟩ := Option.isSome_iff_exists.mp asked
  obtain ⟨cmd, _, read, typed, _⟩ := decideOf_some asked
  exact answered ⟨cmd, read, typed⟩

theorem twins_hidden {p : DecidePayload} (twins : Twins requests policyID subject left right)
    (alike : Consistent requests) (listed : ∀ p, decideOf lib entry = some p → p ∈ requests)
    (asked : decideOf lib entry = some p) (other : ¬p.on policyID subject) :
    Twins requests policyID subject (applyNext lib left entry).2
      (applyNext lib right { entry with kind := .noop, command := [] }).2 := by
  obtain ⟨first, second, agree⟩ := twins
  have quietly : applyNext lib right { entry with kind := .noop, command := [] } =
      (.ok { outcome := .applied }, entry.index, right.2) := applyNext_quiet right (by simp)
  rw [quietly]
  refine ⟨kept_next alike listed first, second, ?_⟩
  refine applyNext_keeps (fun app => Agree policyID subject app right.2) ?_ agree
  intro cmd result after _ read effect
  obtain ⟨_, _, again, typed, payload⟩ := decideOf_some asked
  cases read.symm.trans again
  exact hidden_agrees agree first.keyed typed payload other effect

theorem twins_step (twins : Twins requests policyID subject left right)
    (alike : Consistent requests) (listed : ∀ p, decideOf lib entry = some p → p ∈ requests) :
    Twins requests policyID subject (applyNext lib left entry).2
        (applyNext lib right (masked lib policyID subject entry)).2 ∧
      ((∃ p, decideOf lib entry = some p ∧ p.on policyID subject) →
        (applyNext lib left entry).1 =
          (applyNext lib right (masked lib policyID subject entry)).1) := by
  by_cases shows : ∀ p, decideOf lib entry = some p → p.on policyID subject
  · rw [masked_kept shows]
    obtain ⟨kept, same⟩ := twins_shown twins alike listed shows
    exact ⟨kept, fun ⟨p, asked, _⟩ => same (Option.isSome_of_eq_some asked)⟩
  · simp only [not_forall] at shows
    obtain ⟨p, asked, other⟩ := shows
    rw [masked_hidden asked other]
    refine ⟨twins_hidden twins alike listed asked other, ?_⟩
    rintro ⟨q, again, on⟩
    cases asked.symm.trans again
    exact absurd on other

/-- Subjects do not interfere. From any store that commands reach, run a log in which
no two decides share client and request ids with different content, nor one with a
stored record; and run it again with every decide on another policy or subject
replaced by a no-op at its index and term. Every decide on the subject is answered
alike in both runs, and the subject's stored bucket is the same after them. -/
theorem subjects_do_not_interfere (lib : Stdlib) (commands : List (ApplyContext × Command))
    (start : Nat × AppState) (reached : start = finish lib (0, AppState.migrated) commands)
    (entries : List LogEntry) (apart : NoReuse lib start.2 entries) (policyID subject : String) :
    (∀ (position : Nat) (entry : LogEntry), entries[position]? = some entry →
      (∃ p, decideOf lib entry = some p ∧ p.on policyID subject) →
      ∃ answer, (TwoRuns.answers (applyNext lib) start entries)[position]? = some answer ∧
        (TwoRuns.answers (applyNext lib) start
          (entries.map (masked lib policyID subject)))[position]? = some answer) ∧
    (TwoRuns.final (applyNext lib) start entries).2.tokenBucket policyID subject =
      (TwoRuns.final (applyNext lib) start
        (entries.map (masked lib policyID subject))).2.tokenBucket policyID subject := by
  have kept : Kept (entries.filterMap (decideOf lib)) start.2 :=
    ⟨reached ▸ keyed_finish _ commands keyed_migrated, apart.2⟩
  have begin : Twins (entries.filterMap (decideOf lib)) policyID subject start start :=
    ⟨kept, kept, ⟨rfl, rfl, rfl, rfl, fun _ _ _ _ _ => Iff.rfl⟩⟩
  obtain ⟨answered, finished⟩ := TwoRuns.masked_run
    (fun entry member left right twins => twins_step twins apart.1
      fun p asked => List.mem_filterMap.mpr ⟨entry, member, asked⟩) begin
  exact ⟨answered, finished.agree.bucket⟩

end Runs

section Sample

def pairLib : Stdlib :=
  { sampleLib with
    decide := fun raw =>
      match raw with
      | [who, request, cost] =>
          some ⟨"client-a", "orders", if who = 0 then "alice" else "bob", sampleAmount cost,
            "request-00000000" ++ toString request.toNat, "client"⟩
      | _ => none }

def pairCommands : List (ApplyContext × Command) := sampleCommands 1 [[0, 0, 5, 2], [3, 0]]

/-- Two decisions on each subject, with an update of the policy and a prune between. -/
def pairEntries : List LogEntry :=
  [⟨3, 1, .command, [5, 1, 1, 1, 4]⟩, ⟨4, 1, .command, [5, 2, 0, 2, 3]⟩,
    ⟨5, 1, .command, [1, 3, 8, 2, 1]⟩, ⟨6, 1, .command, [6, 4, 1]⟩,
    ⟨7, 1, .command, [5, 5, 1, 3, 2]⟩, ⟨8, 1, .command, [5, 6, 0, 4, 4]⟩]

theorem subjects_do_not_interfere_pair :
    pairEntries.map (masked pairLib "orders" "alice") ≠ pairEntries ∧
    ∃ answer, (TwoRuns.answers (applyNext pairLib)
        (finish pairLib (0, AppState.migrated) pairCommands) pairEntries)[5]? = some answer ∧
      (TwoRuns.answers (applyNext pairLib) (finish pairLib (0, AppState.migrated) pairCommands)
        (pairEntries.map (masked pairLib "orders" "alice")))[5]? = some answer := by
  have asked : decideOf pairLib ⟨8, 1, .command, [5, 6, 0, 4, 4]⟩ =
      some ⟨"client-a", "orders", "alice", 4, "request-000000004", "client"⟩ := by decide +kernel
  obtain ⟨answered, _⟩ := subjects_do_not_interfere pairLib pairCommands _ rfl pairEntries
    ⟨by unfold Consistent; decide +kernel, by unfold Filed; decide +kernel⟩ "orders" "alice"
  exact ⟨by decide +kernel, answered 5 _ rfl ⟨_, asked, rfl, rfl⟩⟩

end Sample

end QuorumLimiter.Limiter
