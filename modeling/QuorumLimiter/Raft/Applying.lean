import QuorumLimiter.Raft.Safety

/-!
What has been applied. The application state of a node is the replay of the log
it holds up to its checkpoint, each entry once and in order, whatever crashes and
restarts lie behind it.
-/

namespace QuorumLimiter

open Voting ReplicatedLog Simulation

variable {σ ρ : Type}

/-- One entry on a checkpoint and an application state. -/
def transition (apply : Option (ApplyFunc σ ρ)) (index : Nat) (entry : LogEntry)
    (state : Nat × σ) : Except CallError (Option ρ × Nat × σ) :=
  match apply with
  | none => .ok (none, index, state.2)
  | some f =>
      match f index entry.term entry state with
      | .error error => .error error
      | .ok (result, next) => .ok (some result, next)

def replay (apply : Option (ApplyFunc σ ρ)) (index : Nat) :
    List LogEntry → Nat × σ → Except CallError (Nat × σ)
  | [], state => .ok state
  | entry :: rest, state =>
      match transition apply index entry state with
      | .error error => .error error
      | .ok (_, next) => replay apply (index + 1) rest next

def Checkpoints (apply : Option (ApplyFunc σ ρ)) : Prop :=
  ∀ index entry state result next, transition apply index entry state = .ok (result, next) →
    next.1 = index

section Replay

variable {apply : Option (ApplyFunc σ ρ)}

theorem replay_append (index : Nat) (early : List LogEntry) (entry : LogEntry)
    (state middle next : Nat × σ) (result : Option ρ)
    (replayed : replay apply index early state = .ok middle)
    (stepped : transition apply (index + early.length) entry middle = .ok (result, next)) :
    replay apply index (early ++ [entry]) state = .ok next := by
  induction early generalizing index state with
  | nil =>
      cases replayed
      rw [List.nil_append, replay, show index = index + ([] : List LogEntry).length from rfl, stepped]
      rfl
  | cons first rest ih =>
      simp only [replay, List.cons_append] at replayed ⊢
      split at replayed
      · contradiction
      · rw [List.length_cons, Nat.add_comm rest.length, ← Nat.add_assoc] at stepped
        exact ih _ _ replayed stepped

theorem applyStep_transition {index : Nat} {entry : LogEntry} {s after : Local σ ρ}
    {result : Option ρ} (applied : applyStep apply index entry.term entry s = .ok (result, after)) :
    ∃ next, transition apply index entry (s.store.lastApplied, s.store.app) = .ok (result, next) ∧
      after = s.onStore fun store => { store with lastApplied := next.1, app := next.2 } := by
  unfold applyStep at applied
  unfold transition
  split at applied
  · cases applied
    exact ⟨_, rfl, rfl⟩
  · unfold applyTx at applied
    split at applied
    · contradiction
    · rename_i found
      cases applied
      simp only [found]
      exact ⟨_, rfl, rfl⟩

end Replay

theorem deliver_store (s : Local σ ρ) (index : Nat) (result : Option ρ) :
    (s.deliver index result).store = s.store := by
  unfold Local.deliver
  split <;> rfl

/-- A member has applied its log up to its checkpoint, which is committed and which
the running process remembers. -/
structure Applied (c : Cluster σ ρ) (log : List LogEntry) (member : Member σ) : Prop where
  replayed : replay c.apply 1 (log.take member.store.lastApplied) (0, c.app) =
    .ok (member.store.lastApplied, member.store.app)
  bounded : member.store.lastApplied ≤ member.store.commitIndex
  loaded : ∀ node, member.node = some node → node.lastApplied = member.store.lastApplied

structure SameApplied (s t : Local σ ρ) : Prop where
  node : t.node.lastApplied = s.node.lastApplied
  checkpoint : t.store.lastApplied = s.store.lastApplied
  app : t.store.app = s.store.app

theorem move_applied {apply : Option (ApplyFunc σ ρ)} {plan : Plan} {inp : Input}
    {s t : Local σ ρ} (move : Move apply plan inp s t) :
    SameApplied s t ∨ ∃ entry result next, s.node.lastApplied < s.node.commitIndex ∧
      s.store.entry (s.node.lastApplied + 1) = some entry ∧
      transition apply (s.node.lastApplied + 1) entry (s.store.lastApplied, s.store.app) =
        .ok (result, next) ∧
      t = (s.onStore fun store =>
        { store with lastApplied := next.1, app := next.2 }).deliver (s.node.lastApplied + 1)
          result := by
  cases move with
  | applyNext after entry result behind found applied =>
      obtain ⟨next, stepped, rfl⟩ := applyStep_transition applied
      exact Or.inr ⟨entry, result, next, behind, found, stepped, rfl⟩
  | stepDown term leaderID =>
      refine Or.inl ⟨?_, ?_, ?_⟩
      · rw [follow_node, Local.advanceTerm]
        split <;> rfl
      · rw [follow_store, Local.advanceTerm]
        split <;> rfl
      · rw [follow_store, Local.advanceTerm]
        split <;> rfl
  | recordMatch peer term resp =>
      refine Or.inl ⟨?_, rfl, rfl⟩
      simp only [onNode_node, recordMatch]
      split <;> rfl
  | _ => exact Or.inl ⟨rfl, rfl, rfl⟩

section Runs

variable {c : Cluster σ ρ} {w after : World σ ρ} {g reached : History}
  {counted recounted : String → Finset String}

theorem committed_take (valid : Replicated c w g counted)
    (holds : Replicated c after reached recounted) (extended : Extends g reached) (id : String)
    (grown : (w.members id).store.commitIndex ≤ (after.members id).store.commitIndex)
    (count : Nat) (bound : count ≤ (w.members id).store.commitIndex) :
    (reached.log id).take count = (g.log id).take count := by
  -- What is committed at one time is in the log at every later time.
  have early : Settled reached (g.log id) (g.term id) count :=
    settled_extends valid.logs.sound extended (settled_shorter (valid.logs.commits id) bound)
      (Nat.le_refl _) rfl
  have late : Settled reached (reached.log id) (reached.term id) count :=
    settled_shorter (holds.logs.commits id) (Nat.le_trans bound grown)
  exact settled_agree holds.logs.sound late early

theorem applied_init (c : Cluster σ ρ) : Applied c [] ⟨none, Store.migrated c.app⟩ := by
  refine ⟨rfl, Nat.le_refl _, ?_⟩
  rintro node ⟨⟩

theorem applied_kept {log later : List LogEntry} {member stays : Member σ}
    (applied : Applied c log member)
    (same : later.take member.store.lastApplied = log.take member.store.lastApplied)
    (grown : member.store.commitIndex ≤ stays.store.commitIndex)
    (checkpoint : stays.store.lastApplied = member.store.lastApplied)
    (app : stays.store.app = member.store.app)
    (loaded : ∀ node, stays.node = some node → node.lastApplied = stays.store.lastApplied) :
    Applied c later stays := by
  refine ⟨?_, ?_, loaded⟩
  · rw [checkpoint, app, same]
    exact applied.replayed
  · rw [checkpoint]
    exact Nat.le_trans applied.bounded grown

theorem applied_next {node : Node} {store : Store σ} {log : List LogEntry}
    (checkpoints : Checkpoints c.apply) (applied : Applied c log ⟨some node, store⟩)
    (stores : StoresLog store.log log) (commit : node.commitIndex = store.commitIndex)
    (entry : LogEntry) (result : Option ρ) (next : Nat × σ)
    (behind : node.lastApplied < node.commitIndex)
    (found : store.entry (node.lastApplied + 1) = some entry)
    (stepped : transition c.apply (node.lastApplied + 1) entry (store.lastApplied, store.app) =
      .ok (result, next)) :
    next.1 = node.lastApplied + 1 ∧ replay c.apply 1 (log.take next.1) (0, c.app) = .ok next ∧
      next.1 ≤ store.commitIndex := by
  have moved := checkpoints _ _ _ _ _ stepped
  have loaded : node.lastApplied = store.lastApplied := applied.loaded node rfl
  rw [storesLog_entry stores] at found
  refine ⟨moved, ?_, ?_⟩
  · rw [moved, List.take_add_one, found]
    have before := applied.replayed
    simp only [← loaded] at before stepped
    apply replay_append 1 _ entry _ _ next result before
    have reach := (List.getElem?_eq_some_iff.mp found).1
    rw [List.length_take, Nat.min_eq_left (Nat.le_of_lt reach), Nat.add_comm]
    exact stepped
  · rw [moved, ← commit]
    exact behind

theorem applied_move {apply : Option (ApplyFunc σ ρ)} {plan : Plan} {inp : Input}
    {s t : Local σ ρ} {log later : List LogEntry} (same : apply = c.apply)
    (checkpoints : Checkpoints c.apply) (applied : Applied c log ⟨some s.node, s.store⟩)
    (stores : StoresLog s.store.log log) (commit : s.node.commitIndex = s.store.commitIndex)
    (kept : later.take s.store.commitIndex = log.take s.store.commitIndex)
    (move : Move apply plan inp s t) : Applied c later ⟨some t.node, t.store⟩ := by
  subst apply
  have grown := move_commitIndex commit move
  rcases move_applied move with same | ⟨entry, result, next, behind, found, stepped, rfl⟩
  · apply applied_kept applied (take_shorter _ _ _ _ applied.bounded kept) grown same.checkpoint
      same.app
    rintro _ ⟨⟩
    rw [same.node, same.checkpoint]
    exact applied.loaded _ rfl
  · obtain ⟨moved, replayed, reach⟩ :=
      applied_next checkpoints applied stores commit entry result next behind found stepped
    rw [deliver_store] at grown ⊢
    refine ⟨?_, Nat.le_trans reach grown, ?_⟩
    · rw [← take_shorter _ _ _ _ reach kept] at replayed
      exact replayed
    · rintro _ ⟨⟩
      rw [(deliver_progress _ _).1]
      exact moved.symm

theorem applied_member {plan : Plan} {inp : Input} {id : String} {member : Member σ}
    {later : List LogEntry}
    (checkpoints : Checkpoints c.apply) (applied : Applied c (g.log id) (w.members id))
    (valid : Replicated c w g counted) (turn : MemberTurn c plan inp w id member)
    (kept : later.take (w.members id).store.commitIndex =
      (g.log id).take (w.members id).store.commitIndex) : Applied c later member := by
  have grown := member_commitIndex valid turn
  have same := take_shorter _ _ _ _ applied.bounded kept
  cases turn with
  | same => exact applied_kept applied same grown rfl rfl applied.loaded
  | down => exact applied_kept applied same grown rfl rfl (by rintro _ ⟨⟩)
  | wake clusterID listed stopped =>
      apply applied_kept applied same grown rfl rfl
      rintro _ ⟨⟩
      rfl
  | count node up =>
      apply applied_kept applied same grown rfl rfl
      rintro _ ⟨⟩
      exact applied.loaded node up
  | move node s up arrived move =>
      have running : Applied c (g.log id) ⟨some node, (w.members id).store⟩ := up ▸ applied
      exact applied_move (s := w.view id node) rfl checkpoints running (valid.logs.stores id)
        (valid.logs.nodes id node up).commit kept move

theorem applied_turn {plan : Plan} {inp : Input} {id : String} (checkpoints : Checkpoints c.apply)
    (applied : Applied c (g.log id) (w.members id)) (valid : Replicated c w g counted)
    (turn : Turn c plan inp w after) (holds : Replicated c after reached recounted)
    (extended : Extends g reached) : Applied c (reached.log id) (after.members id) := by
  have member := turn_member turn id
  apply applied_member checkpoints applied valid member
  exact committed_take valid holds extended id (member_commitIndex valid member) _ (Nat.le_refl _)

theorem applied_later (checkpoints : Checkpoints c.apply)
    (applied : ∀ id, Applied c (g.log id) (w.members id)) (valid : Replicated c w g counted)
    (run : c.Later Plan.clean w after) :
    ∃ reached recounted, Replicated c after reached recounted ∧ Extends g reached ∧
      ∀ id, Applied c (reached.log id) (after.members id) := by
  obtain ⟨⟨reached, recounted⟩, ⟨holds, kept⟩, extended⟩ := run_answered
    (fun w (state : History × (String → Finset String)) => Replicated c w state.1 state.2 ∧
      ∀ id, Applied c (state.1.log id) (w.members id))
    (fun before after => Extends before.2.1 after.2.1) (fun _ => extends_refl _)
    (fun _ _ _ => extends_trans)
    (by
      rintro w after ⟨g, counted⟩ ⟨plan, inp, clean, turn⟩ ⟨valid, applied⟩
      obtain ⟨reached, recounted, holds, extended⟩ := replicated_turn clean valid turn
      exact ⟨(reached, recounted),
        ⟨holds, fun id => applied_turn checkpoints (applied id) valid turn holds extended⟩,
        extended⟩)
    (later_taken run) (g := (g, counted)) ⟨valid, applied⟩
  exact ⟨reached, recounted, holds, extended, kept⟩

/-- Every application state is the replay of the entries up to its checkpoint, so
states with one checkpoint are one state, on any nodes and at any times. -/
theorem replayed_state (checkpoints : Checkpoints c.apply) (reachable : c.Reachable Plan.clean w)
    (run : c.Later Plan.clean w after) :
    (∀ id, replay c.apply 1 ((w.members id).store.entries 1 (w.members id).store.lastApplied)
        (0, c.app) = .ok ((w.members id).store.lastApplied, (w.members id).store.app)) ∧
    ∀ first second, (w.members first).store.lastApplied = (after.members second).store.lastApplied →
      (w.members first).store.app = (after.members second).store.app := by
  have start : Replicated c c.init (Replicas.init String LogEntry) fun _ => ∅ :=
    ⟨votes_init c, logs_init c⟩
  obtain ⟨g, counted, valid, _, applied⟩ :=
    applied_later checkpoints (fun _ => applied_init c) start reachable
  obtain ⟨reached, recounted, holds, extended, appliedLater⟩ :=
    applied_later checkpoints applied valid run
  refine ⟨?_, ?_⟩
  · intro id
    rw [storesLog_entries (valid.logs.stores id) _ _ (Nat.le_refl 1)]
    exact (applied id).replayed
  · intro first second same
    have early : Settled reached (g.log first) (g.term first) (w.members first).store.lastApplied :=
      settled_extends valid.logs.sound extended
        (settled_shorter (valid.logs.commits first) (applied first).bounded) (Nat.le_refl _) rfl
    have late := settled_shorter (holds.logs.commits second) (appliedLater second).bounded
    rw [← same] at late
    have replayed := (applied first).replayed
    rw [settled_agree holds.logs.sound early late, same, (appliedLater second).replayed] at replayed
    exact (Prod.mk.inj (Except.ok.inj replayed)).2.symm

end Runs

end QuorumLimiter
