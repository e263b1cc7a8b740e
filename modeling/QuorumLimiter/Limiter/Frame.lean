import QuorumLimiter.Limiter.Coherence

/-!
What a command leaves alone. Go errors keep the whole store, rejections and duplicates
all application buckets, and every other command writes only under the keys it names and
one audit event.
-/

namespace QuorumLimiter.Limiter

/-- The keys a command names, for each bucket it may write to. -/
structure Footprint where
  policies : Bytes → Prop := fun _ => False
  clients : Bytes → Prop := fun _ => False
  clientPrefix : Bytes → Prop := fun _ => False
  tokenBuckets : Bytes → Prop := fun _ => False
  idempotency : Bytes → Prop := fun _ => False

def footprint (lib : Stdlib) (cmd : Command) (app : AppState) : Footprint :=
  match cmd.type with
  | .createPolicy =>
      { policies := fun key => ∃ p, lib.createPolicy cmd.payload = some p ∧ key = bytesOf p.id }
  | .updatePolicy =>
      { policies := fun key => ∃ p, lib.updatePolicy cmd.payload = some p ∧ key = bytesOf p.id
        tokenBuckets := fun key => ∃ p b, lib.updatePolicy cmd.payload = some p ∧
          app.tokenBuckets.get key = some b ∧ b.policyID = p.id }
  | .setPolicyActive =>
      { policies := fun key => ∃ p, lib.setPolicyActive cmd.payload = some p ∧ key = bytesOf p.id }
  | .createClient =>
      { clients := fun key => ∃ p, lib.createClient cmd.payload = some p ∧ key = bytesOf p.id
        clientPrefix := fun key => ∃ p, lib.createClient cmd.payload = some p ∧
          key = bytesOf p.keyPrefix }
  | .revokeClient =>
      { clients := fun key => ∃ p, lib.revokeClient cmd.payload = some p ∧ key = bytesOf p.id }
  | .decide =>
      { tokenBuckets := fun key => ∃ p, lib.decide cmd.payload = some p ∧
          compositeKey [bytesOf p.policyID, bytesOf p.subject] = .ok key
        idempotency := fun key => ∃ p, lib.decide cmd.payload = some p ∧
          compositeKey [bytesOf p.clientID, bytesOf p.requestID] = .ok key }
  | .prune | .unknown _ => {}

structure ChangesOnly (named : Footprint) (index : Nat) (before after : AppState) : Prop where
  policies : Bucket.AgreeOff named.policies before.policies after.policies
  clients : Bucket.AgreeOff named.clients before.clients after.clients
  clientPrefix : Bucket.AgreeOff named.clientPrefix before.clientPrefix after.clientPrefix
  tokenBuckets : Bucket.AgreeOff named.tokenBuckets before.tokenBuckets after.tokenBuckets
  idempotency : Bucket.AgreeOff named.idempotency before.idempotency after.idempotency
  audit : Bucket.AgreeOff (· = index) before.audit after.audit

section Steps

variable {lib : Stdlib} {ctx : ApplyContext} {cmd : Command} {app after : AppState}
  {result : Result}

theorem effect_unchanged (effect : Effect lib ctx cmd app result after)
    (refused : result.outcome = .rejected ∨ result.duplicate = true) : after = app := by
  cases effect with
  | rejected code msg => rfl
  | revokedAgain p old typed payload found inactive => rfl
  | replayed p prior typed payload shape found same => rfl
  | charged p policy bucket settled allowed => cases allowed <;> simp [decided] at refused
  | _ => simp at refused

theorem charged_keys {p : DecidePayload} {policy : Policy} {bucket settled : TokenBucketState}
    {allowed : Bool} {retryAfter : Int64} (keyed : Keyed app) (authorized : authorize app p = .ok policy)
    (loaded : loadOrInitBucket app policy p.subject cmd.timestampMS = .ok bucket)
    (spent : settle ctx cmd p policy bucket = (settled, allowed, retryAfter)) :
    settled.policyID = p.policyID ∧ settled.subject = p.subject := by
  obtain ⟨own, _⟩ := keyed_getPolicy keyed (authorize_ok authorized).1
  obtain ⟨owner, named⟩ := loadOrInitBucket_owner (keyed_ownKeys keyed) loaded
  obtain ⟨kept, same⟩ := settle_owner spent
  exact ⟨kept.trans (owner.trans own), same.trans named⟩

theorem changesOnly_policy {named : Footprint} {key : Bytes} {index : Nat}
    {tokenBuckets : Bucket Bytes TokenBucketState} (policy : Policy) (event : AuditEvent)
    (mine : named.policies key)
    (buckets : Bucket.AgreeOff named.tokenBuckets app.tokenBuckets tokenBuckets) :
    ChangesOnly named index app { app with
      policies := app.policies.put key policy
      tokenBuckets
      audit := app.audit.put index event } where
  policies := Bucket.agreeOff_put _ _ mine
  clients := Bucket.agreeOff_refl _ _
  clientPrefix := Bucket.agreeOff_refl _ _
  tokenBuckets := buckets
  idempotency := Bucket.agreeOff_refl _ _
  audit := Bucket.agreeOff_put _ _ rfl

theorem changesOnly_client {named : Footprint} {key : Bytes} {index : Nat}
    {clientPrefix : Bucket Bytes String} (client : Client) (event : AuditEvent)
    (mine : named.clients key)
    (prefixes : Bucket.AgreeOff named.clientPrefix app.clientPrefix clientPrefix) :
    ChangesOnly named index app { app with
      clients := app.clients.put key client
      clientPrefix
      audit := app.audit.put index event } where
  policies := Bucket.agreeOff_refl _ _
  clients := Bucket.agreeOff_put _ _ mine
  clientPrefix := prefixes
  tokenBuckets := Bucket.agreeOff_refl _ _
  idempotency := Bucket.agreeOff_refl _ _
  audit := Bucket.agreeOff_put _ _ rfl

theorem effect_changes (keyed : Keyed app) (effect : Effect lib ctx cmd app result after)
    (made : result.outcome ≠ .rejected) (fresh : result.duplicate = false)
    (kind : cmd.type ≠ .prune) :
    ChangesOnly (footprint lib cmd app) ctx.logIndex app after ∧
      ∃ event, after.audit.get ctx.logIndex = some event ∧ event.logIndex = ctx.logIndex := by
  cases effect with
  | rejected code msg => exact absurd rfl made
  | revokedAgain p old typed payload found inactive => cases fresh
  | replayed p prior typed payload shape found same => cases fresh
  | pruned p typed payload => exact absurd typed kind
  | createdPolicy p name typed payload shape named bounds absent =>
      refine ⟨changesOnly_policy _ _ ?_ (Bucket.agreeOff_refl _ _), _, Bucket.get_put_self _ _ _, rfl⟩
      simp only [footprint, typed]
      exact ⟨p, payload, rfl⟩
  | updatedPolicy p old name visited tokenBuckets typed payload found current named bounds walked
      written =>
      obtain ⟨own, _⟩ := keyed_getPolicy keyed found
      refine ⟨changesOnly_policy _ _ ?_ ?_, _, Bucket.get_put_self _ _ _, rfl⟩
      · simp only [footprint, typed]
        exact ⟨p, payload, congrArg bytesOf own⟩
      · simp only [footprint, typed]
        intro key outside
        refine (converted_get (keyed_ownKeys keyed) walked written key).trans ?_
        cases stored : app.tokenBuckets.get key with
        | none => rfl
        | some b => rw [Option.map_some, if_neg fun mine => outside ⟨p, b, payload, stored, mine⟩]
  | switchedPolicy p old typed payload found current =>
      obtain ⟨own, _⟩ := keyed_getPolicy keyed found
      refine ⟨changesOnly_policy _ _ ?_ (Bucket.agreeOff_refl _ _), _, Bucket.get_put_self _ _ _, rfl⟩
      simp only [footprint, typed]
      exact ⟨p, payload, congrArg bytesOf own⟩
  | createdClient p name typed payload named listed filled absent free existing =>
      refine ⟨changesOnly_client _ _ ?_ (Bucket.agreeOff_put _ _ ?_), _, Bucket.get_put_self _ _ _,
        rfl⟩ <;> simp only [footprint, typed] <;> exact ⟨p, payload, rfl⟩
  | revokedClient p old typed payload found active =>
      obtain ⟨own, _⟩ := keyed_getClient keyed found
      refine ⟨changesOnly_client _ _ ?_ (Bucket.agreeOff_refl _ _), _, Bucket.get_put_self _ _ _, rfl⟩
      simp only [footprint, typed]
      exact ⟨p, payload, congrArg bytesOf own⟩
  | charged p policy bucket settled allowed retryAfter tokenBuckets idempotency typed payload shape
      fresh authorized loaded spent charged recorded =>
      obtain ⟨owner, named⟩ := charged_keys keyed authorized loaded spent
      obtain ⟨place, encoded, rfl⟩ := putPair_ok charged
      obtain ⟨slot, filed, rfl⟩ := putPair_ok recorded
      rw [owner, named] at encoded
      refine ⟨?_, _, Bucket.get_put_self _ _ _, rfl⟩
      constructor <;> simp only [footprint, typed]
      · exact Bucket.agreeOff_refl _ _
      · exact Bucket.agreeOff_refl _ _
      · exact Bucket.agreeOff_refl _ _
      · exact Bucket.agreeOff_put _ _ ⟨p, payload, encoded⟩
      · exact Bucket.agreeOff_put _ _ ⟨p, payload, filed⟩
      · exact Bucket.agreeOff_put _ _ rfl

theorem effect_converts {p : UpdatePolicyPayload} (keyed : Keyed app)
    (effect : Effect lib ctx cmd app result after) (made : result.outcome ≠ .rejected)
    (typed : cmd.type = .updatePolicy) (payload : lib.updatePolicy cmd.payload = some p) :
    ∃ old, app.getPolicy p.id = some old ∧ ∀ key b, app.tokenBuckets.get key = some b →
      b.policyID = p.id →
        after.tokenBuckets.get key = some (convertBucket old p cmd.timestampMS b) := by
  obtain ⟨old, name, visited, tokenBuckets, audit, found, walked, written, rfl⟩ :=
    effect_update effect typed payload made
  refine ⟨old, found, ?_⟩
  intro key b stored mine
  refine (converted_get (keyed_ownKeys keyed) walked written key).trans ?_
  rw [stored, Option.map_some, if_pos mine]

end Steps

/-- On every reachable store, a command that ends in a Go error keeps the store and its
checkpoint; a rejected or duplicate one moves only the checkpoint, to its index; and any
other command but a prune changes nothing outside the keys it names and one audit event at
its index, which is new in a log. An applied update converts every bucket of its policy. -/
theorem apply_frame (lib : Stdlib) (commands : List (ApplyContext × Command))
    (state : Nat × AppState) (reached : finish lib (0, AppState.migrated) commands = state)
    (ctx : ApplyContext) (cmd : Command) :
    (∀ error, apply lib ctx cmd state = .error error → finish lib state [(ctx, cmd)] = state) ∧
    ∀ result next, apply lib ctx cmd state = .ok (result, next) →
      finish lib state [(ctx, cmd)] = next ∧ next.1 = ctx.logIndex ∧
      (result.outcome = .rejected ∨ result.duplicate = true → next.2 = state.2) ∧
      (result.outcome ≠ .rejected → result.duplicate = false → cmd.type ≠ .prune →
        ChangesOnly (footprint lib cmd state.2) ctx.logIndex state.2 next.2 ∧
        (∃ event, next.2.audit.get ctx.logIndex = some event ∧ event.logIndex = ctx.logIndex) ∧
        ((∀ command ∈ commands, command.1.logIndex < ctx.logIndex) →
          state.2.audit.get ctx.logIndex = none) ∧
        ∀ p, cmd.type = .updatePolicy → lib.updatePolicy cmd.payload = some p →
          ∃ old, state.2.getPolicy p.id = some old ∧ ∀ key b,
            state.2.tokenBuckets.get key = some b → b.policyID = p.id →
              next.2.tokenBuckets.get key = some (convertBucket old p cmd.timestampMS b)) := by
  have keyed : Keyed state.2 := reached ▸ keyed_finish _ commands keyed_migrated
  constructor
  · intro error ran
    rw [finish, ran]
    rfl
  · intro result next ran
    obtain ⟨index, effect⟩ := apply_effect ran
    refine ⟨by rw [finish, ran]; rfl, index, effect_unchanged effect, ?_⟩
    intro made fresh kind
    obtain ⟨only, event⟩ := effect_changes keyed effect made fresh kind
    refine ⟨only, event, ?_, fun p => effect_converts keyed effect made⟩
    intro above
    by_contra present
    obtain ⟨event, stored⟩ := Option.ne_none_iff_exists'.mp present
    rw [← reached] at stored
    obtain ⟨command, member, same⟩ := audited_index commands _ event stored
    exact absurd same (Nat.ne_of_lt (above command member))

def sampleSecond : Command := ⟨1, "", .decide, 2000, [2, 1]⟩

theorem apply_frame_sample : ∃ result next,
    apply sampleLib ⟨4, 1⟩ sampleSecond (finish sampleLib (0, AppState.migrated) grantedRun) =
        .ok (result, next) ∧ result.outcome = .allowed ∧
      ChangesOnly (footprint sampleLib sampleSecond (finish sampleLib (0, AppState.migrated) grantedRun).2)
        4 (finish sampleLib (0, AppState.migrated) grantedRun).2 next.2 ∧
      (finish sampleLib (0, AppState.migrated) grantedRun).2.audit.get 4 = none := by
  have seen : (apply sampleLib ⟨4, 1⟩ sampleSecond
      (finish sampleLib (0, AppState.migrated) grantedRun)).toOption.map
        (fun answer => (answer.1.outcome, answer.1.duplicate)) = some (.allowed, false) := by
    decide +kernel
  obtain ⟨⟨result, next⟩, ran, facts⟩ := toOption_ok seen
  obtain ⟨outcome, fresh⟩ := Prod.mk.inj facts
  obtain ⟨_, _, _, changes⟩ :=
    (apply_frame sampleLib grantedRun _ rfl ⟨4, 1⟩ sampleSecond).2 result next ran
  have made : result.outcome ≠ .rejected := by
    rw [show result.outcome = .allowed from outcome]
    decide
  obtain ⟨only, _, new, _⟩ := changes made fresh (by decide)
  exact ⟨result, next, ran, outcome, only, new (by decide +kernel)⟩

end QuorumLimiter.Limiter
