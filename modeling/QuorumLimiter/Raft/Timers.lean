import QuorumLimiter.Raft.Turns

/-!
The timers of a node. A node that does not lead has an election timer running and a
leader has a heartbeat running, whatever messages come and whichever store calls
fail: the event loop never waits for messages alone.
-/

namespace QuorumLimiter

open Relation

variable {σ ρ α β : Type}

/-- The node wakes by itself. -/
structure Node.Armed (n : Node) : Prop where
  election : n.role ≠ .leader → n.electionCh.isSome
  heartbeat : n.role = .leader → n.heartbeatCh.isSome

/-- However its store calls go, a run of the handler that returns keeps the property. -/
def Preserves (P : Node → Prop) (handler : Handler σ ρ α) : Prop :=
  ∀ plan calls s, P s.node → handler.wp plan (fun _ _ after => P after.node) (fun _ => True) calls s

section Rules

variable {P : Node → Prop}

theorem preserves_pure (value : α) : Preserves P (pure value : Handler σ ρ α) :=
  fun _ _ _ holds => holds

theorem preserves_bind {first : Handler σ ρ α} {next : α → Handler σ ρ β}
    (begun : Preserves P first) (rest : ∀ value, Preserves P (next value)) :
    Preserves P (first >>= next) := by
  intro plan calls s holds
  rw [Proc.wp_bind]
  apply Proc.wp_mono _ _ _ _ _ _ _ _ (begun plan calls s holds)
  · exact fun value calls after kept => rest value plan calls after kept
  · exact fun _ _ => trivial

theorem preserves_get {next : Local σ ρ → Handler σ ρ β} (rest : ∀ s, Preserves P (next s)) :
    Preserves P (Proc.get >>= next) :=
  fun plan calls s holds => rest s plan calls s holds

theorem preserves_modify {change : Local σ ρ → Local σ ρ}
    (kept : ∀ s, P s.node → P (change s).node) : Preserves P (Proc.modify change) :=
  fun _ _ s holds => kept s holds

theorem preserves_update {change : Node → Node} (kept : ∀ n, P n → P (change n)) :
    Preserves P (updateNode change : Handler σ ρ Unit) :=
  preserves_modify fun s => kept s.node

theorem preserves_perform {op : StoreOp} {act : Local σ ρ → Except CallError (α × Local σ ρ)}
    (kept : ∀ s value after, act s = .ok (value, after) → after.node = s.node) :
    Preserves P (Proc.perform op act) := by
  intro plan calls s holds
  apply Proc.wp_perform
  · intro _ value after acted
    rw [kept s value after acted]
    exact holds
  · exact fun _ _ => holds
  · exact fun _ => holds
  · exact fun _ => trivial

theorem preserves_read (op : StoreOp) (look : Store σ → α) :
    Preserves P (readStore op look : Handler σ ρ _) := by
  unfold readStore Proc.read
  apply preserves_perform
  rintro s _ _ ⟨⟩
  rfl

theorem preserves_write (op : StoreOp) (update : Store σ → Store σ) :
    Preserves P (writeStore op update : Handler σ ρ _) := by
  unfold writeStore Proc.write
  apply preserves_perform
  rintro s _ _ ⟨⟩
  rfl

theorem preserves_ite {condition : Prop} [Decidable condition] {first second : Handler σ ρ α}
    (yes : Preserves P first) (no : Preserves P second) :
    Preserves P (if condition then first else second) := by
  split
  · exact yes
  · exact no

end Rules

section Loops

variable {P : Node → Prop} (apply : Option (ApplyFunc σ ρ))

theorem preserves_applyEntry (index term : Nat) (entry : LogEntry) :
    Preserves P (applyEntry apply index term entry) := by
  unfold applyEntry
  cases apply with
  | none =>
      apply preserves_bind (preserves_write _ _)
      rintro (_ | _) <;> exact preserves_pure _
  | some f =>
      apply preserves_perform
      intro s value after applied
      have stepped : applyStep (some f) index term entry s = .ok (value, after) := applied
      obtain ⟨_, _, rfl⟩ := applyStep_facts stepped
      rfl

theorem deliver_node (s : Local σ ρ) (index : Nat) (result : Option ρ) :
    ∃ waiters, (s.deliver index result).node =
      { s.node with lastApplied := index, waiters := waiters } := by
  unfold Local.deliver
  split
  · exact ⟨s.node.waiters, rfl⟩
  · exact ⟨_, rfl⟩

theorem preserves_applyLoop (rounds : Nat)
    (kept : ∀ n lastApplied waiters, P n →
      P { n with lastApplied := lastApplied, waiters := waiters }) :
    Preserves P (applyLoop apply rounds) := by
  induction rounds with
  | zero => exact preserves_pure _
  | succ rounds ih =>
      apply preserves_get
      intro s
      apply preserves_bind (preserves_read _ _)
      rintro (_ | _ | entry)
      · exact preserves_pure _
      · exact preserves_pure _
      · apply preserves_bind (preserves_applyEntry apply _ _ _)
        rintro (_ | result)
        · exact preserves_pure _
        · refine preserves_bind (preserves_modify fun t holds => ?_) fun _ => ih
          obtain ⟨waiters, same⟩ := deliver_node t (s.node.lastApplied + 1) result
          rw [same]
          exact kept t.node _ waiters holds

theorem preserves_replayLoop (rounds : Nat)
    (kept : ∀ n lastApplied, P n → P { n with lastApplied := lastApplied }) :
    Preserves P (replayLoop apply rounds) := by
  induction rounds with
  | zero => exact preserves_pure _
  | succ rounds ih =>
      apply preserves_get
      intro s
      apply preserves_bind (preserves_read _ _)
      rintro (_ | _ | entry)
      · exact preserves_pure _
      · exact preserves_pure _
      · apply preserves_bind (preserves_applyEntry apply _ _ _)
        rintro (_ | result)
        · exact preserves_pure _
        · exact preserves_bind (preserves_update fun n => kept n _) fun _ => ih

theorem preserves_replicateToPeer (peer : String) :
    Preserves P (replicateToPeer peer : Handler σ ρ Unit) := by
  apply preserves_get
  intro s
  dsimp only
  apply preserves_ite (preserves_pure _)
  apply preserves_bind
  · apply preserves_ite _ (preserves_pure _)
    apply preserves_bind (preserves_read _ _)
    rintro (_ | _ | _) <;> exact preserves_pure _
  · intro prevTerm
    apply preserves_bind
    · exact preserves_ite (preserves_read _ _) (preserves_pure _)
    · rintro (_ | entries)
      · exact preserves_pure _
      · exact preserves_modify fun t holds => holds

theorem preserves_replicateToAll : Preserves P (replicateToAll : Handler σ ρ Unit) := by
  have each (peers : List String) : Preserves P (replicateEach peers : Handler σ ρ Unit) := by
    induction peers with
    | nil => exact preserves_pure _
    | cons peer rest ih => exact preserves_bind (preserves_replicateToPeer peer) fun _ => ih
  apply preserves_get
  intro s
  exact preserves_ite (preserves_pure _) (each _)

theorem preserves_lastIndexLoop (term index : Nat) :
    Preserves P (lastIndexLoop term index : Handler σ ρ Nat) := by
  induction index with
  | zero => exact preserves_pure _
  | succ index ih =>
      apply preserves_bind (preserves_read _ _)
      rintro (_ | _ | entry)
      · exact preserves_pure _
      · exact preserves_pure _
      · exact preserves_ite (preserves_pure _) ih

theorem preserves_firstIndexOfTerm (start term : Nat) :
    Preserves P (firstIndexOfTerm start term : Handler σ ρ Nat) := by
  have scan (index : Nat) : Preserves P (firstIndexLoop term index : Handler σ ρ Nat) := by
    induction index with
    | zero => exact preserves_pure _
    | succ index ih =>
        cases index with
        | zero => exact preserves_pure _
        | succ index =>
            apply preserves_bind (preserves_read _ _)
            rintro (_ | _ | entry)
            · exact preserves_pure _
            · exact preserves_pure _
            · exact preserves_ite ih (preserves_pure _)
  exact preserves_ite (preserves_pure _) (scan _)

theorem preserves_reconcileEntries (prevIndex : Nat) (entries : List LogEntry) :
    Preserves P (reconcileEntries prevIndex entries : Handler σ ρ _) := by
  induction entries generalizing prevIndex with
  | nil => exact preserves_pure _
  | cons first rest ih =>
      apply preserves_bind (preserves_read _ _)
      rintro (_ | _ | existing)
      · exact preserves_pure _
      · exact preserves_pure _
      · exact preserves_ite (preserves_pure _) (ih _)

end Loops

section Armed

variable (apply : Option (ApplyFunc σ ρ))

theorem armed_rearmed {n : Node} (armed : n.Armed) : n.resetElectionTimer.Armed :=
  ⟨fun _ => rfl, armed.heartbeat⟩

theorem armed_follow (s : Local σ ρ) (leaderID : String) : (s.follow leaderID).node.Armed := by
  rw [follow_node]
  exact ⟨fun _ => rfl, by rintro ⟨⟩⟩

theorem armed_becomeLeader (n : Node) : n.becomeLeader.Armed :=
  ⟨fun other => absurd rfl other, fun _ => rfl⟩

theorem armed_setNextIndex {n : Node} (armed : n.Armed) (peer : String) (next : Nat) :
    (setNextIndex peer next n).Armed :=
  ⟨armed.1, armed.2⟩

theorem armed_recordMatch {n : Node} (armed : n.Armed) (peer : String) (matchIndex : Nat) :
    (recordMatch peer matchIndex n).Armed := by
  unfold recordMatch
  split
  · exact ⟨armed.1, armed.2⟩
  · exact armed

theorem preserves_becomeFollower (term : Nat) (leaderID : String) :
    Preserves Node.Armed (becomeFollower term leaderID : Handler σ ρ _) := by
  apply preserves_get
  intro s
  apply preserves_ite
  · apply preserves_bind (preserves_write _ _)
    rintro (_ | _)
    · exact preserves_pure _
    · apply preserves_bind (preserves_update fun n armed => ⟨armed.1, armed.2⟩)
      intro _
      exact preserves_bind (preserves_modify fun t _ => armed_follow t leaderID)
        fun _ => preserves_pure _
  · exact preserves_bind (preserves_modify fun t _ => armed_follow t leaderID)
      fun _ => preserves_pure _

theorem preserves_onElectionTimeout :
    Preserves Node.Armed (onElectionTimeout : Handler σ ρ Unit) := by
  apply preserves_get
  intro s
  apply preserves_ite (preserves_pure _)
  apply preserves_bind
  · apply preserves_get
    intro t
    apply preserves_bind (preserves_write _ _)
    rintro (_ | _)
    · exact preserves_pure _
    · refine preserves_bind (preserves_update fun n _ => ?_) fun _ => preserves_pure _
      exact ⟨fun _ => rfl, by rintro ⟨⟩⟩
  · rintro (_ | _)
    · exact preserves_update fun n => armed_rearmed
    · exact preserves_modify fun t armed => ⟨armed.1, armed.2⟩

theorem preserves_castVote (req : RequestVoteRequest) (resp : RequestVoteResponse) :
    Preserves Node.Armed (castVote req resp : Handler σ ρ _) := by
  apply preserves_get
  intro s
  dsimp only
  apply preserves_ite _ (preserves_pure _)
  apply preserves_bind
  · apply preserves_bind (preserves_write _ _)
    rintro (_ | _)
    · exact preserves_pure _
    · exact preserves_bind (preserves_update fun n armed => ⟨armed.1, armed.2⟩)
        fun _ => preserves_pure _
  · rintro (_ | _)
    · exact preserves_pure _
    · exact preserves_bind (preserves_update fun n => armed_rearmed) fun _ => preserves_pure _

theorem preserves_handleRequestVote (req : RequestVoteRequest) :
    Preserves Node.Armed (handleRequestVote req : Handler σ ρ _) := by
  apply preserves_get
  intro s
  dsimp only
  apply preserves_ite (preserves_pure _)
  apply preserves_ite (preserves_pure _)
  apply preserves_ite _ (preserves_castVote _ _)
  apply preserves_bind (preserves_becomeFollower _ _)
  rintro (_ | _)
  · exact preserves_pure _
  · exact preserves_castVote _ _

theorem preserves_applyCommitted : Preserves Node.Armed (applyCommitted apply) := by
  apply preserves_get
  intro s
  exact preserves_applyLoop apply _ fun n _ _ armed => ⟨armed.1, armed.2⟩

theorem preserves_handleVoteResponse (term : Nat) (resp : RequestVoteResponse) (err : Bool) :
    Preserves Node.Armed (handleVoteResponse term resp err : Handler σ ρ Unit) := by
  have promoted : Preserves Node.Armed (promoteToLeader : Handler σ ρ Unit) := by
    apply preserves_bind (preserves_update fun n _ => armed_becomeLeader n)
    intro _
    apply preserves_get
    intro s
    dsimp only
    apply preserves_bind (preserves_write _ _)
    rintro (_ | _)
    · exact preserves_replicateToAll
    · exact preserves_bind (preserves_update fun n armed => ⟨armed.1, armed.2⟩)
        fun _ => preserves_replicateToAll
  apply preserves_get
  intro s
  dsimp only
  apply preserves_ite (preserves_pure _)
  apply preserves_ite
  · exact preserves_bind (preserves_becomeFollower _ _) fun _ => preserves_pure _
  · apply preserves_ite (preserves_pure _)
    apply preserves_ite _ (preserves_pure _)
    apply preserves_bind (preserves_update fun n armed => ⟨armed.1, armed.2⟩)
    intro _
    apply preserves_get
    intro t
    exact preserves_ite promoted (preserves_pure _)

theorem preserves_onHeartbeat : Preserves Node.Armed (onHeartbeat : Handler σ ρ Unit) := by
  -- The heartbeat stops only on a node that does not lead.
  intro plan calls s armed
  rw [onHeartbeat, Proc.wp_bind, Proc.wp_get]
  by_cases leader : s.node.role ≠ .leader
  · rw [if_pos leader]
    exact ⟨armed.election, fun leads => absurd leads leader⟩
  · rw [if_neg leader]
    exact preserves_bind preserves_replicateToAll
      (fun _ => preserves_update fun n armed => ⟨armed.election, fun _ => rfl⟩)
      plan calls s armed

theorem preserves_handleAppendResponse (peer : String) (term : Nat) (resp : AppendEntriesResponse)
    (err : Bool) : Preserves Node.Armed (handleAppendResponse apply peer term resp err) := by
  have advanced : Preserves Node.Armed (advanceCommit apply) := by
    apply preserves_get
    intro s
    dsimp only
    apply preserves_ite (preserves_pure _)
    apply preserves_bind (preserves_read _ _)
    rintro (_ | _ | entry)
    · exact preserves_pure _
    · exact preserves_pure _
    · apply preserves_ite (preserves_pure _)
      apply preserves_bind (preserves_update fun n armed => ⟨armed.1, armed.2⟩)
      intro _
      apply preserves_bind (preserves_write _ _)
      intro _
      exact preserves_bind (preserves_applyCommitted apply) fun _ => preserves_replicateToAll
  have backed : Preserves Node.Armed (backupNextIndex peer resp : Handler σ ρ Unit) := by
    apply preserves_bind
    · apply preserves_ite (preserves_pure _)
      apply preserves_bind
      · exact preserves_get fun s => preserves_lastIndexLoop _ _
      · exact fun index => preserves_ite (preserves_pure _) (preserves_pure _)
    · exact fun next => preserves_update fun n armed => armed_setNextIndex armed _ _
  apply preserves_get
  intro s
  dsimp only
  apply preserves_ite (preserves_pure _)
  apply preserves_ite
  · exact preserves_bind (preserves_becomeFollower _ _) fun _ => preserves_pure _
  · apply preserves_ite (preserves_pure _)
    apply preserves_ite
    · exact preserves_bind (preserves_update fun n armed => armed_recordMatch armed _ _)
        fun _ => advanced
    · exact preserves_bind backed fun _ => preserves_replicateToPeer peer

theorem preserves_handleAppendEntries (req : AppendEntriesRequest) :
    Preserves Node.Armed (handleAppendEntries apply req) := by
  have accepted (resp : AppendEntriesResponse) :
      Preserves Node.Armed (acceptEntries apply req resp) := by
    apply preserves_get
    intro s
    dsimp only
    apply preserves_ite _ (preserves_pure _)
    apply preserves_bind (preserves_update fun n armed => ⟨armed.1, armed.2⟩)
    intro _
    apply preserves_bind (preserves_write _ _)
    intro _
    exact preserves_bind (preserves_applyCommitted apply) fun _ => preserves_pure _
  have refreshed : Preserves Node.Armed (refreshLastLog : Handler σ ρ _) := by
    apply preserves_bind (preserves_read _ _)
    rintro (_ | last)
    · exact preserves_pure _
    · apply preserves_bind (preserves_read _ _)
      rintro (_ | found)
      · exact preserves_pure _
      · exact preserves_bind (preserves_update fun n armed => ⟨armed.1, armed.2⟩)
          fun _ => preserves_pure _
  have merged (resp : AppendEntriesResponse) :
      Preserves Node.Armed (mergeEntries apply req resp) := by
    apply preserves_bind (preserves_reconcileEntries _ _)
    rintro (_ | ⟨truncateFrom, toAppend⟩)
    · exact preserves_pure _
    · apply preserves_ite _ (accepted resp)
      apply preserves_bind (preserves_write _ _)
      rintro (_ | _)
      · exact preserves_pure _
      · apply preserves_bind refreshed
        rintro (_ | _)
        · exact preserves_pure _
        · exact accepted resp
  have checked (resp : AppendEntriesResponse) :
      Preserves Node.Armed (checkPrevious apply req resp) := by
    apply preserves_get
    intro s
    dsimp only
    apply preserves_ite (preserves_pure _)
    apply preserves_ite _ (merged _)
    apply preserves_bind (preserves_read _ _)
    rintro (_ | _ | entry)
    · exact preserves_pure _
    · exact preserves_bind (preserves_firstIndexOfTerm _ _) fun _ => preserves_pure _
    · apply preserves_ite _ (merged _)
      exact preserves_bind (preserves_firstIndexOfTerm _ _) fun _ => preserves_pure _
  apply preserves_get
  intro s
  dsimp only
  apply preserves_ite (preserves_pure _)
  apply preserves_ite (preserves_pure _)
  apply preserves_bind (preserves_becomeFollower _ _)
  rintro (_ | _)
  · exact preserves_pure _
  · exact checked _

theorem preserves_handlePropose (command : List UInt8) :
    Preserves Node.Armed (handlePropose command : Handler σ ρ _) := by
  apply preserves_get
  intro s
  dsimp only
  apply preserves_ite (preserves_pure _)
  apply preserves_bind (preserves_write _ _)
  rintro (_ | _)
  · exact preserves_pure _
  · apply preserves_bind (preserves_modify fun t armed => ⟨armed.1, armed.2⟩)
    intro _
    exact preserves_bind preserves_replicateToAll fun _ => preserves_pure _

theorem preserves_deregister (index : Nat) :
    Preserves Node.Armed (deregister index : Handler σ ρ Unit) :=
  preserves_update fun _ armed => ⟨armed.1, armed.2⟩

/-- A node that comes up follows, with its election timer running. -/
theorem start_armed (plan : Plan) (calls : List StoreOp) (s : Local σ ρ)
    (follows : s.node.role = .follower) :
    (start apply).wp plan (fun result _ after => result = .ok () → after.node.Armed)
      (fun _ => True) calls s := by
  let P : Node → Prop := fun n => n.role = .follower
  have identified : Preserves P (recoverClusterID : Handler σ ρ _) := by
    apply preserves_bind (preserves_read _ _)
    rintro (_ | stored)
    · exact preserves_pure _
    · apply preserves_get
      intro t
      dsimp only
      apply preserves_ite
      · exact preserves_ite (preserves_pure _) (preserves_write _ _)
      · apply preserves_ite (preserves_pure _)
        exact preserves_bind (preserves_update fun n follows => follows) fun _ => preserves_pure _
  have restored : Preserves P (readCheckpoints : Handler σ ρ _) := by
    unfold readCheckpoints
    apply preserves_bind (preserves_read _ _)
    rintro (_ | term)
    · exact preserves_pure _
    apply preserves_bind (preserves_read _ _)
    rintro (_ | vote)
    · exact preserves_pure _
    apply preserves_bind (preserves_read _ _)
    rintro (_ | last)
    · exact preserves_pure _
    apply preserves_bind (preserves_read _ _)
    rintro (_ | found)
    · exact preserves_pure _
    apply preserves_bind (preserves_read _ _)
    rintro (_ | commit)
    · exact preserves_pure _
    apply preserves_bind (preserves_read _ _)
    rintro (_ | applied)
    · exact preserves_pure _
    · exact preserves_bind (preserves_update fun _ _ => rfl) fun _ => preserves_pure _
  have recovered : Preserves P (recover apply) := by
    apply preserves_bind identified
    rintro (_ | _)
    · exact preserves_pure _
    · apply preserves_bind restored
      rintro (_ | _)
      · exact preserves_pure _
      · exact preserves_get fun t => preserves_replayLoop apply _ fun n _ follows => follows
  rw [start, Proc.wp_bind, Proc.wp_get]
  split
  · rintro ⟨⟩
  · rw [Proc.wp_bind]
    apply Proc.wp_mono _ _ _ _ _ _ _ _ (recovered plan calls s follows) _ fun _ _ => trivial
    rintro (_ | _) calls after follows
    · rintro ⟨⟩
    · intro _
      have role : after.node.role = .follower := follows
      refine ⟨fun _ => rfl, fun leads => ?_⟩
      exact absurd (role.symm.trans leads) (by rintro ⟨⟩)

end Armed

section Running

variable {c : Cluster σ ρ} {plan : Plan} {w after : World σ ρ} {P : Node → Prop}

theorem run_each {id : String} {handler : Handler σ ρ α} {result : Option α} (each : w.Each P)
    (keeps : Preserves P handler) (ran : w.run plan id handler = some (result, after)) :
    after.Each P := by
  unfold World.run at ran
  cases up : (w.members id).node with
  | none => simp [up] at ran
  | some node =>
      have kept := keeps plan [] (w.view id node) (each id node up)
      simp only [up] at ran
      simp only [Proc.wp] at kept
      split at kept
      · rename_i value _ s run
        simp only [run, Option.some.injEq, Prod.mk.injEq] at ran
        obtain ⟨_, rfl⟩ := ran
        exact each_put each id s kept
      · rename_i _ s run
        simp only [run, Option.some.injEq, Prod.mk.injEq] at ran
        obtain ⟨_, rfl⟩ := ran
        exact each_fallen each id s

theorem run_each_snd {id : String} {handler : Handler σ ρ α} (each : w.Each P)
    (keeps : Preserves P handler) (ran : (w.run plan id handler).map Prod.snd = some after) :
    after.Each P := by
  obtain ⟨⟨result, reached⟩, returned, rfl⟩ := Option.map_eq_some_iff.mp ran
  exact run_each each keeps returned

theorem deliver_armed {k : Nat} {call : Call} (armed : w.Each Node.Armed)
    (delivered : c.deliver plan w k call = some after) : after.Each Node.Armed := by
  unfold Cluster.deliver at delivered
  split at delivered
  · obtain ⟨⟨result, reached⟩, ran, rfl⟩ := Option.map_eq_some_iff.mp delivered
    have kept := run_each armed (preserves_handleRequestVote _) ran
    cases result <;> exact kept
  · obtain ⟨⟨result, reached⟩, ran, rfl⟩ := Option.map_eq_some_iff.mp delivered
    have kept := run_each armed (preserves_handleAppendEntries c.apply _) ran
    cases result <;> exact kept

theorem respond_armed {call : Call} {resp : Option Response} (armed : w.Each Node.Armed)
    (responded : c.respond plan w call resp = some after) : after.Each Node.Armed := by
  unfold Cluster.respond at responded
  split at responded
  · exact run_each_snd armed (preserves_handleVoteResponse _ _ _) responded
  · exact run_each_snd armed (preserves_handleVoteResponse _ _ _) responded
  · exact run_each_snd armed (preserves_handleAppendResponse c.apply _ _ _ _) responded
  · exact run_each_snd armed (preserves_handleAppendResponse c.apply _ _ _ _) responded
  · contradiction

theorem restart_armed (armed : w.Each Node.Armed) (id : String) :
    (c.restart plan w id).Each Node.Armed := by
  have started := start_armed c.apply plan [] (w.view id (c.config id).blank) rfl
  simp only [Proc.wp] at started
  unfold Cluster.restart
  split at started
  · rename_i result _ s run
    rw [run]
    cases result with
    | error error => exact each_fallen armed id s
    | ok _ => exact each_put armed id s (started rfl)
  · rename_i _ s run
    rw [run]
    exact each_fallen armed id s

theorem step_armed {event : Event} (armed : w.Each Node.Armed)
    (stepped : c.step plan w event = some after) : after.Each Node.Armed := by
  cases step_occurs stepped with
  | electionTimeout id node _ up ran => exact run_each_snd armed preserves_onElectionTimeout ran
  | heartbeat id _ ran => exact run_each_snd armed preserves_onHeartbeat ran
  | deliver k call _ sent delivered => exact deliver_armed armed delivered
  | respond k j call resp _ sent answered pending responded =>
      exact respond_armed (w := w.settle k) armed responded
  | lose k call _ sent pending lost => exact respond_armed (w := w.settle k) armed lost
  | propose id command _ ran => exact run_each_snd armed (preserves_handlePropose command) ran
  | deregister k id entry result reached ran =>
      have kept : reached.Each Node.Armed := run_each armed (preserves_deregister _) ran
      exact kept
  | caller => exact armed
  | crash id => exact each_down fun other node _ up => armed other node up
  | restart id => exact restart_armed armed id

theorem armed_reachable {allowed : Plan → Prop} (reachable : c.Reachable allowed w) :
    w.Each Node.Armed := by
  induction reachable with
  | refl => rintro id node ⟨⟩
  | tail _ next ih =>
      obtain ⟨plan, event, _, stepped⟩ := next
      exact step_armed ih stepped

end Running

section Alarm

variable {c : Cluster σ ρ} {plan : Plan} {w after : World σ ρ}

/-- The channel of the timer that wakes the node in its role. -/
def Node.alarm (n : Node) : Option Nat :=
  if n.role = .leader then n.heartbeatCh else n.electionCh

/-- The event of that timer. -/
def Node.wake (n : Node) (id : String) : Event :=
  if n.role = .leader then .heartbeat id else .electionTimeout id

/-- The node waits for a timer that it started after the first `old` ones. -/
def Node.Rearmed (old : Nat) (n : Node) : Prop := ∃ channel, n.alarm = some channel ∧ old ≤ channel

theorem armed_alarm {n : Node} (armed : n.Armed) : n.alarm.isSome := by
  unfold Node.alarm
  split
  · exact armed.heartbeat ‹_›
  · exact armed.election ‹_›

theorem rearmed_reset {n : Node} (other : n.role ≠ .leader) :
    n.resetElectionTimer.Rearmed n.timers :=
  ⟨n.timers, if_neg other, Nat.le_refl _⟩

theorem run_node {id : String} {node next : Node} {handler : Handler σ ρ α} {P : Node → Prop}
    (ends : handler.wp plan (fun _ _ s => P s.node) (fun _ => True) [] (w.view id node))
    (up : (w.members id).node = some node)
    (ran : (w.run plan id handler).map Prod.snd = some after)
    (later : (after.members id).node = some next) : P next := by
  obtain ⟨⟨result, reached⟩, returned, rfl⟩ := Option.map_eq_some_iff.mp ran
  simp only [World.run, up] at returned
  simp only [Proc.wp] at ends
  split at ends
  · rename_i value _ s run
    simp only [run, Option.some.injEq, Prod.mk.injEq] at returned
    obtain ⟨_, rfl⟩ := returned
    rw [put_member] at later
    cases later
    exact ends
  · rename_i _ s run
    simp only [run, Option.some.injEq, Prod.mk.injEq] at returned
    obtain ⟨_, rfl⟩ := returned
    simp [World.down] at later

theorem onElectionTimeout_rearms (s : Local σ ρ) (other : s.node.role ≠ .leader) :
    (onElectionTimeout : Handler σ ρ Unit).wp plan (fun _ _ after =>
      after.node.Rearmed s.node.timers) (fun _ => True) [] s := by
  rw [onElectionTimeout, Proc.wp_bind, Proc.wp_get, if_neg other, startElection, Proc.wp_bind,
    becomeCandidate, Proc.wp_bind, Proc.wp_get, Proc.wp_bind]
  apply Proc.wp_write
  · intro _
    exact ⟨s.node.timers, rfl, Nat.le_refl _⟩
  · intro _
    exact rearmed_reset other
  · exact fun _ => trivial

theorem onHeartbeat_rearms (s : Local σ ρ) (leads : s.node.role = .leader) :
    (onHeartbeat : Handler σ ρ Unit).wp plan (fun _ _ after =>
      after.node.Rearmed s.node.timers) (fun _ => True) [] s := by
  rw [onHeartbeat, Proc.wp_bind, Proc.wp_get, if_neg (not_not.mpr leads), Proc.wp_bind]
  have kept := preserves_replicateToAll
    (P := fun n => n.role = .leader ∧ s.node.timers ≤ n.timers) plan [] s
    ⟨leads, Nat.le_refl _⟩
  refine Proc.wp_mono _ _ _ _ _ _ _ _ kept ?_ fun _ _ => trivial
  rintro _ _ after ⟨still, newer⟩
  exact ⟨after.node.timers, if_pos still, newer⟩

theorem wake_rearms {id : String} {node next : Node} (up : (w.members id).node = some node)
    (stepped : c.step plan w (node.wake id) = some after)
    (later : (after.members id).node = some next) : next.Rearmed node.timers := by
  unfold Node.wake at stepped
  split at stepped
  · rename_i leads
    simp only [Cluster.step, up] at stepped
    split at stepped
    · exact run_node (onHeartbeat_rearms (w.view id node) leads) up stepped later
    · contradiction
  · rename_i other
    simp only [Cluster.step, up] at stepped
    split at stepped
    · exact run_node (onElectionTimeout_rearms (w.view id node) other) up stepped later
    · contradiction

end Alarm

/-- The event loop never waits for messages alone: whichever store calls fail or crash
a node, a running node has the timer of its role, and one whose timer has fired has
started another by the end of the event. -/
theorem alarm_always_set (c : Cluster σ ρ) (w : World σ ρ) (reachable : c.Reachable Plan.any w)
    (id : String) (node : Node) (up : (w.members id).node = some node) :
    node.alarm.isSome ∧
      ∀ plan after next, c.step plan w (node.wake id) = some after →
        (after.members id).node = some next → next.Rearmed node.timers :=
  ⟨armed_alarm (armed_reachable reachable id node up),
    fun _ _ _ stepped later => wake_rearms up stepped later⟩

/-- The election of a node whose store refuses the new term is put off, not given up. -/
theorem alarm_always_set_trio : ∃ w after node next, trio.Reachable Plan.any w ∧
    (w.members "a").node = some node ∧ node.alarm = some 0 ∧
    trio.step (fun _ => .fail) w (.electionTimeout "a") = some after ∧
    (after.members "a").node = some next ∧ next.role = .follower ∧ next.Rearmed 1 := by
  obtain ⟨w, ran, played⟩ := Option.bind_eq_some_iff.mp
    (by decide +kernel : ((trio.steps trio.init (smoothly [.restart "a"])).bind fun w =>
      (trio.step (fun _ => .fail) w (.electionTimeout "a")).map fun after =>
        ((w.members "a").node.map fun node => (node.role, node.alarm, node.timers),
          (after.members "a").node.map (·.role))) =
      some (some (.follower, some 0, 1), some .follower))
  obtain ⟨after, stepped, seen⟩ := Option.map_eq_some_iff.mp played
  simp only [Prod.mk.injEq, Option.map_eq_some_iff] at seen
  obtain ⟨⟨node, up, role, alarm, timers⟩, next, later, follows⟩ := seen
  have reachable : trio.Reachable Plan.any w := smoothly_later trio _ _ w trivial ran
  have fires : node.wake "a" = .electionTimeout "a" := by rw [Node.wake, role]; rfl
  obtain ⟨_, rearms⟩ := alarm_always_set trio w reachable "a" node up
  refine ⟨w, after, node, next, reachable, up, alarm, stepped, later, follows, ?_⟩
  rw [← timers]
  exact rearms _ after next (fires ▸ stepped) later

end QuorumLimiter
