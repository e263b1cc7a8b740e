import QuorumLimiter.Limiter.Frame
import QuorumLimiter.Limiter.Progress

/-!
Policy versions. Every applied edit of a policy carries the version it replaces and
leaves the next one, so a version counts the edits and no two edits replace the same one.
-/

namespace QuorumLimiter.Limiter

/-- The policy that an update or a switch names, and the version it expects. -/
def Command.edit (lib : Stdlib) (cmd : Command) : Option (String × UInt64) :=
  match cmd.type with
  | .updatePolicy => (lib.updatePolicy cmd.payload).map fun p => (p.id, p.expectedVersion)
  | .setPolicyActive => (lib.setPolicyActive cmd.payload).map fun p => (p.id, p.expectedVersion)
  | _ => none

def Step.edit (lib : Stdlib) (step : Step) : Option (String × UInt64) :=
  if step.result.outcome = .applied then step.cmd.edit lib else none

def edits (lib : Stdlib) (id : String) (past : List Step) : Nat :=
  past.countP fun step => (step.edit lib).any fun edit => edit.1 = id

def editsOf (lib : Stdlib) (id : String) (expected : UInt64) (past : List Step) : Nat :=
  past.countP fun step => step.edit lib = some (id, expected)

section Steps

variable {lib : Stdlib} {ctx : ApplyContext} {cmd : Command} {app after : AppState}
  {result : Result}

/-- What one step does to the version of one policy. -/
inductive VersionStep (lib : Stdlib) (id : String) (step : Step) (app after : AppState) : Prop
  | edited (old new : Policy) (made : step.edit lib = some (id, old.version))
      (found : app.getPolicy id = some old) (replaced : after.getPolicy id = some new)
      (next : new.version = old.version + 1)
  | created (new : Policy) (idle : ((step.edit lib).any fun edit => edit.1 = id) = false)
      (absent : app.getPolicy id = none) (written : after.getPolicy id = some new)
      (first : new.version = 1)
  | kept (idle : ((step.edit lib).any fun edit => edit.1 = id) = false)
      (same : after.getPolicy id = app.getPolicy id)

theorem version_edited {p : String} {policy old : Policy} {tokenBuckets : Bucket Bytes TokenBucketState}
    {audit : Bucket Nat AuditEvent} (id : String) {step : Step}
    (made : step.edit lib = some (p, old.version)) (found : app.getPolicy p = some old)
    (own : old.id = p) (next : policy.version = old.version + 1) :
    VersionStep lib id step app
      { app with policies := app.policies.put (bytesOf old.id) policy, tokenBuckets, audit } := by
  have stored := getPolicy_put app policy old.id id
  by_cases same : id = old.id
  · rw [if_pos same] at stored
    rw [same, own] at stored ⊢
    exact VersionStep.edited old policy made found stored next
  · rw [if_neg same] at stored
    refine VersionStep.kept ?_ stored
    rw [made, Option.any_some, decide_eq_false_iff_not, ← own]
    exact fun equal => same equal.symm

theorem effect_version (keyed : Keyed app) (effect : Effect lib ctx cmd app result after)
    (before next : Nat × AppState) (id : String) :
    VersionStep lib id ⟨ctx, cmd, before, result, next⟩ app after := by
  cases effect with
  | rejected code msg => exact VersionStep.kept (by simp [Step.edit, rejection]) rfl
  | createdPolicy p name typed payload shape named bounds absent =>
      have idle : ∀ result, ((Step.mk ctx cmd before result next).edit lib).any
          (fun edit => edit.1 = id) = false := by
        simp [Step.edit, Command.edit, typed]
      have stored := getPolicy_put app (p.policy name cmd.timestampMS) p.id id
      by_cases same : id = p.id
      · rw [if_pos same] at stored
        exact VersionStep.created _ (idle _) (same ▸ absent) stored rfl
      · rw [if_neg same] at stored
        exact VersionStep.kept (idle _) stored
  | updatedPolicy p old name visited tokenBuckets typed payload found current named bounds walked
      written =>
      obtain ⟨own, _⟩ := keyed_getPolicy keyed found
      refine version_edited id ?_ found own rfl
      simp [Step.edit, Command.edit, typed, payload, current]
  | switchedPolicy p old typed payload found current =>
      obtain ⟨own, _⟩ := keyed_getPolicy keyed found
      refine version_edited id ?_ found own rfl
      simp [Step.edit, Command.edit, typed, payload, current]
  | createdClient p name typed => exact VersionStep.kept (by simp [Step.edit, Command.edit, typed]) rfl
  | revokedAgain p old typed => exact VersionStep.kept (by simp [Step.edit, Command.edit, typed]) rfl
  | revokedClient p old typed => exact VersionStep.kept (by simp [Step.edit, Command.edit, typed]) rfl
  | replayed p prior typed => exact VersionStep.kept (by simp [Step.edit, Command.edit, typed]) rfl
  | charged p policy bucket settled allowed retryAfter tokenBuckets idempotency typed =>
      exact VersionStep.kept (by simp [Step.edit, Command.edit, typed]) rfl
  | pruned p typed => exact VersionStep.kept (by simp [Step.edit, Command.edit, typed]) rfl

theorem edit_outcome (effect : Effect lib ctx cmd app result after)
    (edit : (cmd.edit lib).isSome) : result.outcome = .applied ∨ result.outcome = .rejected := by
  cases effect with
  | rejected code msg => exact Or.inr rfl
  | replayed p prior typed => simp [Command.edit, typed] at edit
  | charged p policy bucket settled allowed retryAfter tokenBuckets idempotency typed =>
      simp [Command.edit, typed] at edit
  | _ => exact Or.inl rfl

theorem edit_answered (keyed : Keyed app) (edit : (cmd.edit lib).isSome) :
    Returns (applyTx lib ctx cmd app) := by
  unfold Command.edit at edit
  unfold applyTx
  split at edit
  · rename_i typed
    rw [Option.isSome_map] at edit
    obtain ⟨p, decoded⟩ := Option.isSome_iff_exists.mp edit
    rw [typed]
    exact updatePolicy_returns keyed decoded
  · rename_i typed
    rw [Option.isSome_map] at edit
    obtain ⟨p, decoded⟩ := Option.isSome_iff_exists.mp edit
    rw [typed]
    exact setPolicyActive_returns keyed decoded
  · contradiction

theorem edit_returns {id : String} {expected : UInt64} {state : Nat × AppState}
    (keyed : Keyed state.2) (edit : cmd.edit lib = some (id, expected)) :
    ∃ result next, apply lib ctx cmd state = .ok (result, next) ∧
      (result.outcome = .applied ∧ (∃ old new, state.2.getPolicy id = some old ∧
          old.version = expected ∧ next.2.getPolicy id = some new ∧
          new.version = old.version + 1) ∨
        result.outcome = .rejected ∧ next.2 = state.2) := by
  have decoded : (cmd.edit lib).isSome := Option.isSome_of_eq_some edit
  have answered : Returns (applyTx lib ctx cmd state.2) := edit_answered keyed decoded
  obtain ⟨result, after, ran⟩ := answered
  have effect := applyTx_effect ran
  refine ⟨result, (ctx.logIndex, after), by rw [apply, ran]; rfl, ?_⟩
  rcases edit_outcome effect decoded with applied | rejected
  · have made : (Step.mk ctx cmd state result state).edit lib = some (id, expected) := by
      rw [Step.edit, if_pos applied, edit]
    cases effect_version keyed effect state state id with
    | edited old new again found replaced next =>
        cases made.symm.trans again
        exact Or.inl ⟨applied, old, new, found, rfl, replaced, next⟩
    | created new idle => simp [made] at idle
    | kept idle => simp [made] at idle
  · exact Or.inr ⟨rejected, effect_unchanged effect (Or.inl rejected)⟩

end Steps

/-- The version of every policy counts its edits, each of which expected a version that
the policy had left behind. -/
structure Counted (lib : Stdlib) (id : String) (past : List Step) (app : AppState) : Prop where
  absent : app.getPolicy id = none → edits lib id past = 0
  version : ∀ policy, app.getPolicy id = some policy →
    policy.version.toNat = 1 + edits lib id past
  once : ∀ expected, editsOf lib id expected past ≤ 1 ∧
    (1 + edits lib id past ≤ expected.toNat → editsOf lib id expected past = 0)

section Runs

variable {lib : Stdlib} {id : String} {past : List Step} {step : Step} {app after : AppState}

theorem counted_migrated (lib : Stdlib) (id : String) : Counted lib id [] AppState.migrated := by
  refine ⟨fun _ => rfl, ?_, fun expected => ⟨Nat.zero_le 1, fun _ => rfl⟩⟩
  rintro policy ⟨⟩

theorem edits_append (lib : Stdlib) (id : String) (past rest : List Step) :
    edits lib id (past ++ rest) = edits lib id past + edits lib id rest :=
  List.countP_append

theorem edits_idle (idle : ((step.edit lib).any fun edit => edit.1 = id) = false) (past : List Step) :
    edits lib id (past ++ [step]) = edits lib id past ∧
      ∀ expected, editsOf lib id expected (past ++ [step]) = editsOf lib id expected past := by
  constructor
  · simp only [edits, List.countP_append, List.countP_singleton, idle, Bool.false_eq_true, if_false,
      Nat.add_zero]
  · intro expected
    have other : step.edit lib ≠ some (id, expected) := by
      intro made
      rw [made, Option.any_some, decide_eq_true rfl] at idle
      exact Bool.noConfusion idle
    simp only [editsOf, List.countP_append, List.countP_singleton, decide_eq_true_eq, if_neg other,
      Nat.add_zero]

theorem edits_made {version : UInt64} (made : step.edit lib = some (id, version))
    (past : List Step) :
    edits lib id (past ++ [step]) = edits lib id past + 1 ∧
      ∀ expected, editsOf lib id expected (past ++ [step]) =
        editsOf lib id expected past + if version = expected then 1 else 0 := by
  constructor
  · simp [edits, List.countP_append, made]
  · intro expected
    simp [editsOf, List.countP_append, List.countP_singleton, made]

theorem counted_step (counted : Counted lib id past app)
    (few : edits lib id (past ++ [step]) < 2 ^ 64 - 1) (made : VersionStep lib id step app after) :
    Counted lib id (past ++ [step]) after := by
  cases made with
  | edited old new made found replaced next =>
      obtain ⟨total, each⟩ := edits_made made past
      have before := counted.version old found
      have version : new.version.toNat = 1 + (edits lib id past + 1) := by
        rw [next, UInt64.toNat_add, before]
        have one : (1 : UInt64).toNat = 1 := rfl
        omega
      refine ⟨fun absent => ?_, fun policy stored => ?_, fun expected => ?_⟩
      · cases absent.symm.trans replaced
      · cases replaced.symm.trans stored
        rw [total, version]
      · obtain ⟨most, unused⟩ := counted.once expected
        rw [each, total]
        by_cases same : old.version = expected
        · -- Every edit that expected less left a smaller version than this one's.
          subst same
          have fresh := unused (le_of_eq before.symm)
          rw [if_pos rfl, fresh]
          omega
        · rw [if_neg same]
          exact ⟨most, fun above => unused (by omega)⟩
  | created new idle absent written first =>
      obtain ⟨total, each⟩ := edits_idle idle past
      refine ⟨fun missing => ?_, fun policy stored => ?_, fun expected => ?_⟩
      · cases missing.symm.trans written
      · cases written.symm.trans stored
        rw [total, first, counted.absent absent]
        rfl
      · rw [total, each]
        exact counted.once expected
  | kept idle same =>
      obtain ⟨total, each⟩ := edits_idle idle past
      refine ⟨fun missing => ?_, fun policy stored => ?_, fun expected => ?_⟩
      · rw [total, counted.absent (same.symm.trans missing)]
      · rw [total, counted.version policy (same.symm.trans stored)]
      · rw [total, each]
        exact counted.once expected

theorem counted_history (lib : Stdlib) (id : String) (commands : List (ApplyContext × Command))
    (few : edits lib id (history lib (0, AppState.migrated) commands) < 2 ^ 64 - 1) :
    Counted lib id (history lib (0, AppState.migrated) commands)
      (finish lib (0, AppState.migrated) commands).2 := by
  suffices kept : Keyed (finish lib (0, AppState.migrated) commands).2 ∧
      (edits lib id (history lib (0, AppState.migrated) commands) < 2 ^ 64 - 1 →
        Counted lib id (history lib (0, AppState.migrated) commands)
          (finish lib (0, AppState.migrated) commands).2) from kept.2 few
  refine history_keeps (fun past state => Keyed state.2 ∧ (edits lib id past < 2 ^ 64 - 1 →
    Counted lib id past state.2)) (0, AppState.migrated) [] ?_
    ⟨keyed_migrated, fun _ => counted_migrated lib id⟩
  rintro command member past before result after ⟨keyed, counted⟩ ran
  obtain ⟨_, effect⟩ := apply_effect ran
  refine ⟨keyed_effect keyed effect, fun few => ?_⟩
  have fewer := edits_append lib id past [⟨command.1, command.2, before, result, after⟩]
  exact counted_step (counted (by omega)) few (effect_version keyed effect before after id)

end Runs

/-- Along every run the version of a policy is one more than the number of its applied
edits. An edit of it that decodes is applied only to the version it expects and otherwise
rejected, with the store as it was; and no two applied edits expected the same version. -/
theorem policy_edits_not_lost (lib : Stdlib) (commands : List (ApplyContext × Command))
    (id : String) (few : edits lib id (history lib (0, AppState.migrated) commands) < 2 ^ 64 - 1) :
    (∀ policy, (finish lib (0, AppState.migrated) commands).2.getPolicy id = some policy →
      policy.version.toNat = 1 + edits lib id (history lib (0, AppState.migrated) commands)) ∧
    (∀ earlier ctx cmd later expected, commands = earlier ++ (ctx, cmd) :: later →
      cmd.edit lib = some (id, expected) → ∃ result next,
        apply lib ctx cmd (finish lib (0, AppState.migrated) earlier) = .ok (result, next) ∧
        (result.outcome = .applied ∧ (∃ old new,
            (finish lib (0, AppState.migrated) earlier).2.getPolicy id = some old ∧
            old.version = expected ∧ next.2.getPolicy id = some new ∧
            new.version = old.version + 1) ∨
          result.outcome = .rejected ∧ next.2 = (finish lib (0, AppState.migrated) earlier).2)) ∧
    ∀ expected, editsOf lib id expected (history lib (0, AppState.migrated) commands) ≤ 1 := by
  have counted := counted_history lib id commands few
  refine ⟨counted.version, ?_, fun expected => (counted.once expected).1⟩
  intro earlier ctx cmd later expected _ edit
  exact edit_returns (keyed_finish _ earlier keyed_migrated) edit

def editedRun : List (ApplyContext × Command) :=
  sampleCommands 1 [[0, 0, 10, 3], [1, 1, 10, 4, 1], [2, 2, 0, 1], [2, 3, 0, 2]]

theorem policy_edits_not_lost_sample :
    edits sampleLib "orders" (history sampleLib (0, AppState.migrated) editedRun) = 2 ∧
      (∃ policy, (finish sampleLib (0, AppState.migrated) editedRun).2.getPolicy "orders" =
        some policy ∧ policy.version.toNat = 3) ∧
      ∀ expected, editsOf sampleLib "orders" expected
        (history sampleLib (0, AppState.migrated) editedRun) ≤ 1 := by
  have count : edits sampleLib "orders" (history sampleLib (0, AppState.migrated) editedRun) = 2 := by
    decide +kernel
  have present : ((finish sampleLib (0, AppState.migrated) editedRun).2.getPolicy "orders").isSome := by
    decide +kernel
  obtain ⟨policy, stored⟩ := Option.isSome_iff_exists.mp present
  obtain ⟨version, _, once⟩ := policy_edits_not_lost sampleLib editedRun "orders"
    (by rw [count]; decide)
  rw [count] at version
  exact ⟨count, ⟨policy, stored, version policy stored⟩, once⟩

end QuorumLimiter.Limiter
