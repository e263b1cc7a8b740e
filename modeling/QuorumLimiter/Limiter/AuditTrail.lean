import QuorumLimiter.Limiter.Coherence

/-!
The audit trail. Every effective command appends its index, and every prune keeps the
newest of the events it finds, so the trail is what the prunes left of the history.
-/

namespace QuorumLimiter.Limiter

section Trail

/-- A decision that was not a repetition, or a change to a policy or a client. -/
def Step.effective (step : Step) : Bool :=
  match step.cmd.type, step.result.outcome with
  | .decide, .allowed | .decide, .denied | .revokeClient, .applied => !step.result.duplicate
  | .createPolicy, .applied | .updatePolicy, .applied | .setPolicyActive, .applied
  | .createClient, .applied => true
  | _, _ => false

def PrunePayload.keepCount (p : PrunePayload) : Nat :=
  if p.auditKeepMax ≤ 0 then 100000 else p.auditKeepMax.toInt.toNat

def Step.pruneKeep (lib : Stdlib) (step : Step) : Option Nat :=
  if step.cmd.type = .prune ∧ step.result.outcome = .applied then
    (lib.prune step.cmd.payload).map PrunePayload.keepCount
  else none

/-- The newest of the indexes, at most `count` of them. -/
def newest (count : Nat) (indexes : List Nat) : List Nat :=
  indexes.drop (indexes.length - min count indexes.length)

def trailStep (lib : Stdlib) (trail : List Nat) (step : Step) : List Nat :=
  if step.effective then trail ++ [step.ctx.logIndex]
  else
    match step.pruneKeep lib with
    | none => trail
    | some count => newest count trail

end Trail

section Steps

variable {lib : Stdlib} {ctx : ApplyContext} {cmd : Command} {app after : AppState}
  {result : Result} {last : Nat}

theorem auditIndexes_put (stamped : Stamped last app) {index : Nat} (later : last < index)
    (event : AuditEvent) :
    (app.audit.put index event).pairs.map Prod.fst = auditIndexes app ++ [index] := by
  rw [Bucket.pairs_put_last]
  · simp [auditIndexes]
  · intro pair member
    have bounds := stamped.audits pair.1 pair.2 ((Bucket.get_eq_some_iff _ _ _).mpr member)
    omega

theorem auditExcess_eq (app : AppState) (p : PrunePayload) :
    auditExcess app p.keep =
      (auditIndexes app).length - min p.keepCount (auditIndexes app).length := by
  unfold auditExcess PrunePayload.keep PrunePayload.keepCount
  by_cases unset : p.auditKeepMax ≤ 0
  · rw [if_pos unset, if_pos unset]
    have most : defaultAuditKeepMax.toInt = 100000 := rfl
    rw [most]
    split <;> omega
  · rw [if_neg unset, if_neg unset]
    rw [Int64.not_le, Int64.lt_iff_toInt_lt] at unset
    change 0 < p.auditKeepMax.toInt at unset
    split <;> omega

theorem auditIndexes_pruned (app : AppState) (p : PrunePayload) :
    (((auditIndexes app).take (auditExcess app p.keep)).foldl Bucket.delete app.audit).pairs.map
        Prod.fst = newest p.keepCount (auditIndexes app) := by
  have left : (((auditIndexes app).take (auditExcess app p.keep)).foldl Bucket.delete
      app.audit).pairs = app.audit.pairs.drop (auditExcess app p.keep) :=
    Bucket.pairs_foldl_delete_take app.audit _
  rw [left, newest, ← auditExcess_eq, List.map_drop]
  rfl

theorem trail_kept {step : Step} {trail : List Nat} (idle : step.effective = false)
    (other : step.pruneKeep lib = none) : trailStep lib trail step = trail := by
  rw [trailStep, if_neg (by rw [idle]; exact Bool.false_ne_true), other]

theorem trail_put {step : Step} {event : AuditEvent} (stamped : Stamped last app)
    (later : last < step.ctx.logIndex) (made : step.effective = true)
    (written : after.audit = app.audit.put step.ctx.logIndex event) :
    auditIndexes after = trailStep lib (auditIndexes app) step := by
  rw [trailStep, if_pos made, auditIndexes, written]
  exact auditIndexes_put stamped later event

theorem trail_effect (before next : Nat × AppState) (stamped : Stamped last app)
    (later : last < ctx.logIndex) (effect : Effect lib ctx cmd app result after) :
    auditIndexes after = trailStep lib (auditIndexes app) ⟨ctx, cmd, before, result, next⟩ := by
  cases effect with
  | rejected code msg =>
      refine (trail_kept ?_ (by simp [Step.pruneKeep, rejection])).symm
      simp only [Step.effective, rejection]
      split <;> simp_all
  | createdPolicy p name typed payload shape named bounds absent =>
      exact trail_put stamped later (by simp [Step.effective, typed]) rfl
  | updatedPolicy p old name visited tokenBuckets typed payload found current named bounds walked
      written => exact trail_put stamped later (by simp [Step.effective, typed]) rfl
  | switchedPolicy p old typed payload found current =>
      exact trail_put stamped later (by simp [Step.effective, typed]) rfl
  | createdClient p name typed payload named listed filled absent free existing =>
      exact trail_put stamped later (by simp [Step.effective, typed]) rfl
  | revokedAgain p old typed payload found inactive =>
      exact (trail_kept (by simp [Step.effective, typed]) (by simp [Step.pruneKeep, typed])).symm
  | revokedClient p old typed payload found active =>
      exact trail_put stamped later (by simp [Step.effective, typed]) rfl
  | replayed p prior typed payload shape found same =>
      refine (trail_kept ?_ (by simp [Step.pruneKeep, typed])).symm
      cases allowed : prior.allowed <;> simp [Step.effective, typed, decided]
  | charged p policy bucket settled allowed retryAfter tokenBuckets idempotency typed payload shape
      fresh authorized loaded spent charged recorded =>
      refine trail_put stamped later ?_ rfl
      cases allowed <;> simp [Step.effective, typed, decided]
  | pruned p typed payload =>
      simp only [trailStep, Step.effective, Step.pruneKeep, typed, and_self, if_true, payload,
        Option.map_some, Bool.false_eq_true, if_false]
      exact auditIndexes_pruned app p

theorem prune_ok (typed : cmd.type = .prune)
    (ran : applyTx lib ctx cmd app = .ok (result, after)) :
    ∃ p, lib.prune cmd.payload = some p ∧ result.outcome = .applied ∧
      result.prune = some ⟨(expiredKeys app cmd.timestampMS).length, auditExcess app p.keep⟩ ∧
      after = { app with
        idempotency := (expiredKeys app cmd.timestampMS).foldl Bucket.delete app.idempotency
        audit := ((auditIndexes app).take (auditExcess app p.keep)).foldl Bucket.delete
          app.audit } := by
  unfold applyTx at ran
  rw [typed] at ran
  obtain ⟨p, decoded, ran⟩ := bind_ok ran
  simp only [foldl_deleteIdempotency, foldl_deleteAudit] at ran
  cases ran
  exact ⟨p, unmarshalPayload_ok decoded, rfl, rfl, rfl⟩

theorem expired_pairs (app : AppState) (cutoff : Int64) :
    ((expiredKeys app cutoff).foldl Bucket.delete app.idempotency).pairs =
      app.idempotency.pairs.filter fun pair => !decide (pair.2.expiresAtMS ≤ cutoff) := by
  rw [Bucket.pairs_foldl_delete]
  apply List.filter_congr
  intro pair member
  have taken := mem_expiredKeys ((Bucket.get_eq_some_iff _ _ _).mpr member) cutoff
  by_cases late : pair.2.expiresAtMS ≤ cutoff <;> simp [taken, late]

theorem expired_get (app : AppState) (cutoff : Int64) (key : Bytes) :
    ((expiredKeys app cutoff).foldl Bucket.delete app.idempotency).get key =
      (app.idempotency.get key).filter fun d => !decide (d.expiresAtMS ≤ cutoff) := by
  rw [Bucket.get_foldl_delete]
  cases stored : app.idempotency.get key with
  | none => simp
  | some d =>
      simp only [mem_expiredKeys stored cutoff, Option.filter_some]
      by_cases late : d.expiresAtMS ≤ cutoff <;> simp [late]

end Steps

section Runs

variable {lib : Stdlib}

theorem trail_history (state : Nat × AppState) (commands : List (ApplyContext × Command))
    (logged : Logged state.1 commands) (stamped : Stamped state.1 state.2) :
    auditIndexes (finish lib state commands).2 =
      (history lib state commands).foldl (trailStep lib) (auditIndexes state.2) := by
  have kept : Stamped (finish lib state commands).1 (finish lib state commands).2 ∧
      auditIndexes (finish lib state commands).2 =
        (history lib state commands).foldl (trailStep lib) (auditIndexes state.2) := by
    refine logged_keeps (fun past reached => Stamped reached.1 reached.2 ∧
      auditIndexes reached.2 = past.foldl (trailStep lib) (auditIndexes state.2)) state [] logged ?_
      ⟨stamped, rfl⟩
    rintro command member past before result after later ⟨stamped, trail⟩ ran
    obtain ⟨index, effect⟩ := apply_effect ran
    refine ⟨index ▸ stamped_effect stamped later effect, ?_⟩
    rw [List.foldl_append, ← trail]
    exact trail_effect before after stamped later effect
  exact kept.2

end Runs

/-- After the commands of a log, the trail holds the indexes of the effective ones that no
prune took, in the order a cursor walks their keys. Each prune keeps exactly the newest of
the events, as many as it is told to, removes exactly the records that have expired, counts
both, and touches no policy, client, prefix or token bucket. -/
theorem audit_trail_exact (lib : Stdlib) (commands : List (ApplyContext × Command))
    (logged : Logged 0 commands) :
    auditIndexes (finish lib (0, AppState.migrated) commands).2 =
        (history lib (0, AppState.migrated) commands).foldl (trailStep lib) [] ∧
      ((auditIndexes (finish lib (0, AppState.migrated) commands).2).map u64).Pairwise (· < ·) ∧
      ∀ step ∈ history lib (0, AppState.migrated) commands, step.cmd.type = .prune →
        ∃ p counts, lib.prune step.cmd.payload = some p ∧
          step.result.prune = some counts ∧
          auditIndexes step.after.2 = newest p.keepCount (auditIndexes step.before.2) ∧
          (∀ key, step.after.2.idempotency.get key = (step.before.2.idempotency.get key).filter
            fun d => !decide (d.expiresAtMS ≤ step.cmd.timestampMS)) ∧
          step.before.2.idempotency.pairs.length =
            step.after.2.idempotency.pairs.length + counts.idempotencyRemoved ∧
          step.before.2.audit.pairs.length =
            step.after.2.audit.pairs.length + counts.auditRemoved ∧
          step.after.2.policies = step.before.2.policies ∧
          step.after.2.clients = step.before.2.clients ∧
          step.after.2.clientPrefix = step.before.2.clientPrefix ∧
          step.after.2.tokenBuckets = step.before.2.tokenBuckets := by
  refine ⟨trail_history (0, AppState.migrated) commands logged stamped_migrated, ?_, ?_⟩
  · have fits : ∀ pair ∈ (finish lib (0, AppState.migrated) commands).2.audit.pairs,
        pair.1 < 2 ^ 64 := by
      intro pair member
      obtain ⟨command, listed, same⟩ := audited_index commands pair.1 pair.2
        ((Bucket.get_eq_some_iff _ _ _).mpr member)
      exact same ▸ logged.fits command listed
    rw [auditIndexes, List.pairwise_map, List.pairwise_map]
    refine (Bucket.ordered _).imp_of_mem ?_
    intro left right first second below
    exact (u64_lt_iff (fits left first) (fits right second)).mpr below
  · intro step member typed
    obtain ⟨past, rest, ran⟩ := List.append_of_mem member
    obtain ⟨_, _, _, _, _, applied⟩ := history_at ran
    obtain ⟨p, payload, _, counts, after⟩ := prune_ok typed (apply_ok applied).2
    refine ⟨p, _, payload, counts, ?_⟩
    rw [after]
    refine ⟨auditIndexes_pruned _ p, expired_get _ _, ?_, ?_, rfl, rfl, rfl, rfl⟩
    · rw [expired_pairs, expiredKeys, List.length_map, Nat.add_comm]
      exact List.length_eq_length_filter_add _
    · have left : (((auditIndexes step.before.2).take (auditExcess step.before.2 p.keep)).foldl
          Bucket.delete step.before.2.audit).pairs =
          step.before.2.audit.pairs.drop (auditExcess step.before.2 p.keep) :=
        Bucket.pairs_foldl_delete_take step.before.2.audit _
      have total : (auditIndexes step.before.2).length = step.before.2.audit.pairs.length :=
        List.length_map _
      have removed := auditExcess_eq step.before.2 p
      rw [left, List.length_drop]
      change _ = _ + auditExcess step.before.2 p.keep
      omega

/-- Two decisions, and a prune that keeps two events. -/
def prunedRun : List (ApplyContext × Command) :=
  sampleCommands 1 [[0, 0, 10, 3], [3, 0], [5, 1, 1, 4], [5, 2, 2, 9], [6, 3, 2]]

theorem audit_trail_exact_sample : Logged 0 prunedRun ∧
    auditIndexes (finish sampleLib (0, AppState.migrated) prunedRun).2 = [3, 4] := by
  have logged : Logged 0 prunedRun := ⟨by decide +kernel, by decide +kernel⟩
  have trail : (history sampleLib (0, AppState.migrated) prunedRun).foldl (trailStep sampleLib) [] =
      [3, 4] := by
    decide +kernel
  exact ⟨logged, (audit_trail_exact sampleLib prunedRun logged).1.trans trail⟩

end QuorumLimiter.Limiter
