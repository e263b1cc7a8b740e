import QuorumLimiter.Limiter.Admission
import QuorumLimiter.Raft.Applying

/-!
The limiter on the cluster. Every node's buckets are the replay of its log up to
the checkpoint, so what holds of runs of commands holds on every node.
-/

namespace QuorumLimiter.Limiter

/-- The state machine as the consensus layer calls it. -/
def applyFunc (lib : Stdlib) : ApplyFunc AppState Result := fun index term entry state =>
  (applyEntry lib index term entry state).mapError fun _ => CallError.failed

theorem applyFunc_checkpoints (lib : Stdlib) : Checkpoints (some (applyFunc lib)) := by
  intro index entry state result next stepped
  simp only [transition] at stepped
  split at stepped
  · contradiction
  · rename_i ran
    cases stepped
    have applied := mapError_ok ran
    unfold applyEntry at applied
    split at applied
    · cases applied
      rfl
    · split at applied
      · contradiction
      · exact (apply_effect applied).1

def commandsOf (lib : Stdlib) : Nat → List LogEntry → List (ApplyContext × Command)
  | _, [] => []
  | index, entry :: rest =>
      if entry.kind ≠ .command then commandsOf lib (index + 1) rest
      else
        match lib.command entry.command with
        | none => commandsOf lib (index + 1) rest
        | some cmd => (⟨index, entry.term⟩, cmd) :: commandsOf lib (index + 1) rest

theorem replay_finish (lib : Stdlib) (index : Nat) (entries : List LogEntry)
    (state after : Nat × AppState) (checkpoint : Nat)
    (replayed : replay (some (applyFunc lib)) index entries state = .ok after) :
    (finish lib (checkpoint, state.2) (commandsOf lib index entries)).2 = after.2 := by
  -- A replay that succeeds is a run of the log's commands.
  induction entries generalizing index state checkpoint with
  | nil =>
      cases replayed
      rfl
  | cons entry rest ih =>
      simp only [replay, transition] at replayed
      split at replayed
      · contradiction
      · rename_i result next stepped
        split at stepped
        · contradiction
        · rename_i ran
          cases stepped
          have applied := mapError_ok ran
          unfold applyEntry at applied
          rw [commandsOf]
          split at applied
          · rename_i other
            cases applied
            rw [if_pos other]
            exact ih (index + 1) (index, state.2) checkpoint replayed
          · rename_i command
            rw [if_neg command]
            cases decoded : lib.command entry.command with
            | none =>
                rw [decoded] at applied
                cases applied
            | some cmd =>
                rw [decoded] at applied
                -- Commands read the buckets, never the checkpoint.
                have again : apply lib ⟨index, entry.term⟩ cmd (checkpoint, state.2) =
                    .ok (_, next) := applied
                simp only [finish, again]
                exact ih (index + 1) next next.1 replayed

section Nodes

theorem applyFunc_machine {c : Cluster AppState Result} {lib : Stdlib}
    (machine : c.apply = some (applyFunc lib)) : Checkpoints c.apply := by
  rw [machine]
  exact applyFunc_checkpoints lib

/-- On every node at every moment, the application buckets are the result of
applying its log up to the persisted checkpoint, each entry once and in order, to
the migrated store; so equal checkpoints mean equal buckets, on any two nodes and at
any two times, crashes and restarts included. -/
theorem application_replayed (c : Cluster AppState Result) (lib : Stdlib)
    (w after : World AppState Result) (machine : c.apply = some (applyFunc lib))
    (fresh : c.app = AppState.migrated) (reachable : c.Reachable Plan.clean w)
    (run : c.Later Plan.clean w after) :
    (∀ id, replay (some (applyFunc lib)) 1
        ((w.members id).store.entries 1 (w.members id).store.lastApplied) (0, AppState.migrated) =
      .ok ((w.members id).store.lastApplied, (w.members id).store.app)) ∧
    ∀ first second, (w.members first).store.lastApplied = (after.members second).store.lastApplied →
      (w.members first).store.app = (after.members second).store.app := by
  have replayed := replayed_state (applyFunc_machine machine) reachable run
  rw [machine, fresh] at replayed
  exact replayed

/-- The bound on admission holds of the buckets of every node, counted over the
commands of its log up to the checkpoint. -/
theorem node_admission (c : Cluster AppState Result) (lib : Stdlib) (w : World AppState Result)
    (machine : c.apply = some (applyFunc lib)) (fresh : c.app = AppState.migrated)
    (reachable : c.Reachable Plan.clean w) (id policyID subject : String)
    (commands : List (ApplyContext × Command))
    (applied : commands = commandsOf lib 1
      ((w.members id).store.entries 1 (w.members id).store.lastApplied))
    (timed : ∀ command ∈ commands, Timestamp command.2.timestampMS) :
    ((((history lib (0, AppState.migrated) commands).map fun step =>
          step.result.spent policyID subject).sum : Int) : ℚ) +
        credit policyID subject (w.members id).store.app ≤
      opening policyID subject (history lib (0, AppState.migrated) commands) +
        ((history lib (0, AppState.migrated) commands).map fun step =>
          step.accrued policyID subject).sum := by
  have replayed := (replayed_state (applyFunc_machine machine) reachable
    Relation.ReflTransGen.refl).1 id
  rw [machine, fresh] at replayed
  have finished := replay_finish lib 1 _ (0, AppState.migrated) _ 0 replayed
  rw [← applied] at finished
  have bound := history_credit lib policyID subject (0, AppState.migrated) commands timed
    sound_migrated
  rw [finished, if_pos] at bound
  · exact bound
  · exact lookupPair_empty _ _

end Nodes

def limiterTrio : Cluster AppState Result where
  ids := ["a", "b", "c"]
  distinct := three_distinct
  named := three_named
  clusterID := "limiter"
  apply := some (applyFunc sampleLib)
  app := AppState.migrated

def createFirst : List Event :=
  electFirst ++ [.propose "a" [0, 0, 5, 2], .deliver 4, .respond 4 1]

/-- The second node hears of it, and the first crashes and restarts. -/
def spreadFirst : List Event := [.heartbeat "a", .deliver 6, .crash "a", .restart "a"]

theorem application_replayed_trio : ∃ w after, limiterTrio.Reachable Plan.clean w ∧
    limiterTrio.Later Plan.clean w after ∧
    ((w.members "a").store.app.getPolicy "orders").isSome ∧
    replay (some (applyFunc sampleLib)) 1
        ((w.members "a").store.entries 1 (w.members "a").store.lastApplied) (0, AppState.migrated) =
      .ok ((w.members "a").store.lastApplied, (w.members "a").store.app) ∧
    (w.members "a").store.app = (after.members "a").store.app ∧
    (w.members "a").store.app = (after.members "b").store.app := by
  obtain ⟨w, after, reachable, run, seen, seenLater⟩ := smoothly_reaches limiterTrio smooth_clean
    createFirst spreadFirst
    (fun w => ((w.members "a").store.lastApplied,
      ((w.members "a").store.app.getPolicy "orders").isSome))
    (fun w => ((w.members "a").store.lastApplied, (w.members "b").store.lastApplied))
    (by decide +kernel : _ = some (2, true)) (by decide +kernel : _ = some (2, 2))
  obtain ⟨applied, created⟩ := Prod.mk.inj seen
  obtain ⟨restarted, followed⟩ := Prod.mk.inj seenLater
  obtain ⟨replayed, same⟩ :=
    application_replayed limiterTrio sampleLib w after rfl rfl reachable run
  exact ⟨w, after, reachable, run, created, replayed "a",
    same "a" "a" (applied.trans restarted.symm), same "a" "b" (applied.trans followed.symm)⟩

end QuorumLimiter.Limiter
