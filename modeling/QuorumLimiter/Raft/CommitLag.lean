import Mathlib.Algebra.GroupWithZero.Nat
import QuorumLimiter.Raft.Safety

/-!
A failed `SetCommitIndex` is logged and the node goes on, so a store may hold an
older commit index than memory does. With the stores of running nodes brought up to
date (`synced`) the cluster is one whose calls never fail, which bounds commit
indexes by the log. Whether applied stays within committed then rests on what a
restart finds: the two checkpoints are written by different transactions.
-/

namespace QuorumLimiter

open Relation Voting ReplicatedLog Simulation

variable {σ ρ : Type}

/-- Only the write of the commit index returns errors; a crash may come at any call. -/
def Plan.steady (plan : Plan) : Prop := ∀ op, plan.mayFail op → op = .setCommitIndex

def Local.synced (s : Local σ ρ) : Local σ ρ := s.onStore (·.setCommitIndex s.node.commitIndex)

def Member.synced (m : Member σ) : Member σ :=
  match m.node with
  | none => m
  | some node => ⟨some node, m.store.setCommitIndex node.commitIndex⟩

def World.synced (w : World σ ρ) : World σ ρ :=
  { w with members := fun id => (w.members id).synced }

section Moves

variable {apply : Option (ApplyFunc σ ρ)} {plan : Plan} {inp : Input} {s t : Local σ ρ}

theorem reconcile_setCommitIndex (store : Store σ) (commit prevIndex : Nat)
    (entries : List LogEntry) :
    reconcile (store.setCommitIndex commit) prevIndex entries =
      reconcile store prevIndex entries := by
  induction entries generalizing prevIndex with
  | nil => rfl
  | cons first rest ih =>
      simp only [reconcile, ih]
      rfl

theorem lastIndexIn_setCommitIndex (store : Store σ) (commit term index : Nat) :
    lastIndexIn (store.setCommitIndex commit) term index = lastIndexIn store term index := by
  induction index with
  | zero => rfl
  | succ index ih =>
      simp only [lastIndexIn, ih]
      rfl

theorem recordMatch_checkpoints (peer : String) (matchIndex : Nat) (n : Node) :
    (recordMatch peer matchIndex n).commitIndex = n.commitIndex ∧
      (recordMatch peer matchIndex n).lastApplied = n.lastApplied := by
  unfold recordMatch
  split <;> exact ⟨rfl, rfl⟩

theorem synced_advanceTerm (term : Nat) :
    (s.advanceTerm term).synced = s.synced.advanceTerm term := by
  unfold Local.advanceTerm
  by_cases later : term > s.node.currentTerm
  · rw [if_pos later, if_pos (show term > s.synced.node.currentTerm from later)]
    rfl
  · rw [if_neg later, if_neg (show ¬ term > s.synced.node.currentTerm from later)]

theorem synced_follow (leaderID : String) :
    (s.follow leaderID).synced = s.synced.follow leaderID := by
  unfold Local.follow
  by_cases leads : s.node.role = .leader
  · rw [if_pos leads, if_pos (show s.synced.node.role = .leader from leads)]
    rfl
  · rw [if_neg leads, if_neg (show ¬ s.synced.node.role = .leader from leads)]
    rfl

theorem synced_deliver (index : Nat) (result : Option ρ) :
    (s.deliver index result).synced = s.synced.deliver index result := by
  simp only [Local.deliver, Local.synced, onStore_node]
  split <;> rfl

theorem synced_applyStep {index term : Nat} {entry : LogEntry} {result : Option ρ}
    (applied : applyStep apply index term entry s = .ok (result, t)) :
    applyStep apply index term entry s.synced = .ok (result, t.synced) := by
  cases apply with
  | none =>
      cases applied
      rfl
  | some f =>
      simp only [applyStep, applyTx, Local.synced, onStore_store, Store.setCommitIndex] at applied ⊢
      cases ran : f index term entry (s.store.lastApplied, s.store.app) with
      | error error => simp [ran] at applied
      | ok returned =>
          simp only [ran] at applied
          cases applied
          rfl

/-- Up to the commit checkpoint, a node whose commit writes fail moves like one whose
store calls all succeed. -/
theorem synced_move (steady : plan.steady) (move : Move apply plan inp s t) :
    Move apply Plan.smooth inp s.synced t.synced := by
  have reads : ¬ plan.mayFail .entry := fun failed => by cases steady _ failed
  cases move with
  | timers electionCh heartbeatCh timers => exact Move.timers s.synced electionCh heartbeatCh timers
  | stepDown term leaderID reached told named =>
      rw [synced_follow, synced_advanceTerm]
      exact Move.stepDown s.synced term leaderID reached told named
  | stand due notLeader => exact Move.stand s.synced due notLeader
  | grant req asked current free upToDate =>
      exact Move.grant s.synced req asked current free upToDate
  | promote candidateID resp answered candidate won =>
      exact Move.promote s.synced candidateID resp answered candidate won
  | assertLeadership leader => exact Move.assertLeadership s.synced leader
  | propose command asked leader => exact Move.propose s.synced command asked leader
  | overwrite req truncateFrom toAppend asked current follower held merged needed =>
      refine Move.overwrite s.synced req truncateFrom toAppend asked current follower held ?_ needed
      rw [← merged]
      exact reconcile_setCommitIndex _ _ _ _
  | tear truncateFrom toAppend torn =>
      obtain ⟨calls, failed | failed⟩ := torn
      · cases steady _ ⟨_, failed⟩
      · cases steady _ ⟨_, failed⟩
  | commit index rule => exact Move.commit s.synced index rule
  | commitUnsaved index rule failed => exact Move.commit s.synced index rule
  | applyNext after entry result behind found applied =>
      rw [synced_deliver]
      exact Move.applyNext s.synced after.synced entry result behind found (synced_applyStep applied)
  | recordMatch peer term resp answered leader current success =>
      have same : (s.onNode (recordMatch peer resp.matchIndex)).synced =
          s.synced.onNode (recordMatch peer resp.matchIndex) := by
        simp only [Local.synced, onNode_node, (recordMatch_checkpoints _ _ _).1]
        rfl
      rw [same]
      exact Move.recordMatch s.synced peer term resp answered leader current success
  | backup peer term resp next answered leader current rejected hinted =>
      refine Move.backup s.synced peer term resp next answered leader current rejected (Or.inl ?_)
      rw [hinted.resolve_right reads]
      simp only [hintedNext, Local.synced, onStore_store, onStore_node, lastIndexIn_setCommitIndex]
  | append peer prevTerm leader known previous =>
      exact Move.append s.synced peer prevTerm leader known (Or.inl (previous.resolve_right reads))
  | deregister index asked => exact Move.deregister s.synced index asked

theorem saved_move (move : Move apply plan inp s t)
    (saved : s.store.commitIndex ≤ s.node.commitIndex) :
    t.store.commitIndex ≤ t.node.commitIndex := by
  cases move with
  | stepDown term leaderID =>
      simp only [follow_store, follow_node, Local.advanceTerm]
      split <;> exact saved
  | commit index rule => exact Nat.le_refl index
  | commitUnsaved index rule failed => exact Nat.le_trans saved (Nat.le_of_lt rule.1)
  | applyNext after entry result behind found applied =>
      obtain ⟨lastApplied, app, rfl⟩ := applyStep_facts applied
      unfold Local.deliver
      split <;> exact saved
  | recordMatch peer term resp =>
      simp only [onNode_node, (recordMatch_checkpoints _ _ _).1]
      exact saved
  | _ => exact saved

theorem applied_within_move (move : Move apply plan inp s t)
    (within : s.node.lastApplied ≤ s.node.commitIndex) :
    t.node.lastApplied ≤ t.node.commitIndex := by
  cases move with
  | stepDown term leaderID =>
      simp only [follow_node, Local.advanceTerm]
      split <;> exact within
  | commit index rule => exact Nat.le_trans within (Nat.le_of_lt rule.1)
  | commitUnsaved index rule failed => exact Nat.le_trans within (Nat.le_of_lt rule.1)
  | applyNext after entry result behind found applied =>
      obtain ⟨lastApplied, app, rfl⟩ := applyStep_facts applied
      rw [(deliver_progress _ _).1, (deliver_progress _ _).2]
      exact behind
  | recordMatch peer term resp =>
      simp only [onNode_node, recordMatch_checkpoints]
      exact within
  | _ => exact within

end Moves

section Worlds

variable {c : Cluster σ ρ} {w after : World σ ρ} {plan : Plan} {inp : Input} {g : History}
  {counted : String → Finset String}

theorem synced_up {id : String} {node : Node} (up : (w.members id).node = some node) :
    w.synced.members id = ⟨some node, (w.members id).store.setCommitIndex node.commitIndex⟩ := by
  simp only [World.synced, Member.synced, up]

theorem synced_stopped {id : String} (stopped : (w.members id).node = none) :
    w.synced.members id = w.members id := by
  simp only [World.synced, Member.synced, stopped]

@[simp] theorem synced_node (id : String) : (w.synced.members id).node = (w.members id).node := by
  cases running : (w.members id).node with
  | none => rw [synced_stopped running, running]
  | some node => rw [synced_up running]

theorem synced_view {id : String} {node : Node} (up : (w.members id).node = some node) :
    w.synced.view id node = (w.view id node).synced := by
  simp only [World.view, synced_up up]
  rfl

theorem synced_put (id : String) (s : Local σ ρ) : (w.put id s).synced = w.synced.put id s.synced := by
  have members : (w.put id s).synced.members = (w.synced.put id s.synced).members := by
    funext other
    by_cases self : other = id
    · have up : ((w.put id s).members id).node = some s.node := by rw [put_member]
      rw [self, synced_up up, put_member, put_member]
      rfl
    · rw [put_member_ne _ _ _ _ self]
      simp only [World.synced, put_member_ne _ _ _ _ self]
  simp only [World.synced, World.put] at members ⊢
  rw [members]
  rfl

theorem synced_wake (c : Cluster σ ρ) {id : String} (clusterID : String)
    (stopped : (w.members id).node = none) :
    (w.wake c id clusterID).synced = w.synced.wake c id clusterID := by
  rw [World.wake, synced_put, World.wake]
  simp only [World.view, synced_stopped stopped]
  rfl

/-- The same turn of the synced cluster, unless a node went down and lost what it had
not saved. -/
theorem synced_turn (steady : plan.steady) (turn : Turn c plan inp w after) :
    Turn c Plan.smooth inp w.synced after.synced ∨ ∃ id, after = w.down id := by
  cases turn with
  | move id node s up arrived move =>
      rw [synced_put]
      refine Or.inl (Turn.move w.synced id node s.synced (by simp [up]) ?_ ?_)
      · cases inp <;> exact arrived
      · rw [synced_view up]
        exact synced_move steady move
  | answerVote k call req resp node sent asked up answer =>
      refine Or.inl (Turn.answerVote w.synced k call req resp node sent asked (by simp [up]) ?_)
      rw [synced_view up]
      exact answer
  | answerAppend k call req resp node sent asked up answer =>
      refine Or.inl (Turn.answerAppend w.synced k call req resp node sent asked (by simp [up]) ?_)
      rw [synced_view up]
      exact answer
  | settle k => exact Or.inl (Turn.settle w.synced k)
  | count k call req resp node sent asked answered pending up given counts =>
      have counting : CountsVote call.term resp false (w.synced.view call.source node) := by
        rw [synced_view up]
        exact counts
      have counted : Turn c Plan.smooth inp w.synced _ := Turn.count w.synced k call req resp node
        sent asked answered pending (by simp [up]) given counting
      rw [synced_view up] at counted
      rw [synced_put]
      exact Or.inl counted
  | wake id clusterID member stopped given =>
      have woken := synced_wake c clusterID stopped
      rw [World.wake] at woken
      rw [woken]
      exact Or.inl (Turn.wake w.synced id clusterID member (by simp [stopped]) given)
  | down id => exact Or.inr ⟨id, rfl⟩
  | proposal k state earned => exact Or.inl (Turn.proposal w.synced k state earned)

theorem synced_store (id : String) :
    ∃ commit, (w.synced.members id).store = (w.members id).store.setCommitIndex commit := by
  cases running : (w.members id).node with
  | none => exact ⟨(w.members id).store.commitIndex, by rw [synced_stopped running]; rfl⟩
  | some node => exact ⟨node.commitIndex, by rw [synced_up running]⟩

@[simp] theorem synced_currentTerm (id : String) :
    (w.synced.members id).store.currentTerm = (w.members id).store.currentTerm := by
  obtain ⟨commit, same⟩ := synced_store (w := w) id
  rw [same]
  rfl

@[simp] theorem synced_votedFor (id : String) :
    (w.synced.members id).store.votedFor = (w.members id).store.votedFor := by
  obtain ⟨commit, same⟩ := synced_store (w := w) id
  rw [same]
  rfl

@[simp] theorem synced_log (id : String) :
    (w.synced.members id).store.log = (w.members id).store.log := by
  obtain ⟨commit, same⟩ := synced_store (w := w) id
  rw [same]
  rfl

/-- The log is replicated as if every commit write had succeeded. -/
structure Lagging (c : Cluster σ ρ) (w : World σ ρ) (g : History)
    (counted : String → Finset String) : Prop where
  replicated : Replicated c w.synced g counted
  saved : ∀ id node, (w.members id).node = some node →
    (w.members id).store.commitIndex ≤ node.commitIndex

theorem lagging_init (c : Cluster σ ρ) :
    Lagging c c.init (Replicas.init String LogEntry) fun _ => ∅ :=
  ⟨⟨votes_init c, logs_init c⟩, by rintro id node ⟨⟩⟩

theorem synced_ahead (lagging : Lagging c w g counted) (id : String) :
    (w.members id).store.commitIndex ≤ (w.synced.members id).store.commitIndex := by
  cases running : (w.members id).node with
  | none => rw [synced_stopped running]
  | some node =>
      rw [synced_up running]
      exact lagging.saved id node running

theorem down_synced_up {id other : String} {node : Node}
    (up : ((w.down id).synced.members other).node = some node) :
    (w.down id).synced.members other = w.synced.members other := by
  rw [synced_node] at up
  rw [synced_up up, synced_up (down_up up), down_store]

theorem lagging_down (lagging : Lagging c w g counted) (id : String) :
    Replicated c (w.down id).synced g counted := by
  -- A node that goes down forgets the commit indexes it could not save.
  obtain ⟨votes, logs⟩ := lagging.replicated
  refine ⟨⟨votes.sound, ?_, ?_, ?_, votes.calls, votes.once, votes.granted, ?_⟩,
    logs.sound, ?_, logs.numbered, ?_, ?_, logs.calls, logs.replies⟩
  · intro other
    rw [votes.term other, synced_currentTerm, synced_currentTerm, down_store]
  · intro other
    rw [votes.ballot other, synced_votedFor, synced_votedFor, down_store]
  · intro other node up
    have kept := down_synced_up up
    rw [kept] at up ⊢
    exact votes.nodes other node up
  · intro k call node found vote pending up
    rw [down_synced_up up] at up
    exact votes.uncounted k call node found vote
      (fun earlier => pending (List.mem_append_left _ earlier)) up
  · intro other
    have stored := logs.stores other
    rw [synced_log] at stored ⊢
    rw [down_store]
    exact stored
  · intro other
    apply settled_shorter (logs.commits other)
    cases running : ((w.down id).members other).node with
    | none =>
        rw [synced_stopped running, down_store]
        exact synced_ahead lagging other
    | some node => rw [down_synced_up (by rw [synced_node, running])]
  · intro other node up
    have kept := down_synced_up up
    rw [kept] at up ⊢
    exact logs.nodes other node up

theorem saved_member {id : String} {member : Member σ} (turn : MemberTurn c plan inp w id member)
    (saved : ∀ node, (w.members id).node = some node →
      (w.members id).store.commitIndex ≤ node.commitIndex) :
    ∀ node, member.node = some node → member.store.commitIndex ≤ node.commitIndex := by
  cases turn with
  | same => exact saved
  | down => rintro _ ⟨⟩
  | wake clusterID listed stopped given =>
      rintro _ ⟨⟩
      exact Nat.le_refl _
  | count node up =>
      rintro _ ⟨⟩
      exact saved node up
  | move node s up arrived move =>
      rintro _ ⟨⟩
      exact saved_move move (saved node up)

theorem lagging_turn (steady : plan.steady) (lagging : Lagging c w g counted)
    (turn : Turn c plan inp w after) : ∃ reached recounted, Lagging c after reached recounted := by
  have saved : ∀ id node, (after.members id).node = some node →
      (after.members id).store.commitIndex ≤ node.commitIndex :=
    fun id => saved_member (turn_member turn id) (lagging.saved id)
  rcases synced_turn steady turn with synced | ⟨id, rfl⟩
  · obtain ⟨reached, recounted, holds, _⟩ := replicated_turn smooth_clean lagging.replicated synced
    exact ⟨reached, recounted, holds, saved⟩
  · exact ⟨g, counted, lagging_down lagging id, saved⟩

theorem lagging_reachable (reachable : c.Reachable Plan.steady w) :
    ∃ g counted, Lagging c w g counted :=
  run_invariant (fun w => ∃ g counted, Lagging c w g counted)
    (by
      rintro w after ⟨plan, inp, steady, turn⟩ ⟨g, counted, lagging⟩
      exact lagging_turn steady lagging turn)
    (later_taken reachable) ⟨_, _, lagging_init c⟩

theorem commit_within_log (reachable : c.Reachable Plan.steady w) {id : String} {node : Node}
    (up : (w.members id).node = some node) : node.commitIndex ≤ node.lastLogIndex := by
  obtain ⟨g, counted, lagging⟩ := lagging_reachable reachable
  have logs := lagging.replicated.logs
  have settled := logs.commits id
  rw [synced_up up] at settled
  have running : (w.synced.members id).node = some node := by rw [synced_node, up]
  rw [(logs.nodes id node running).lastIndex]
  exact settled_length logs.sound settled

end Worlds

section Checkpoints

variable {c : Cluster σ ρ} {w after : World σ ρ} {plan : Plan} {inp : Input}

def World.Within (w : World σ ρ) : Prop :=
  ∀ id node, (w.members id).node = some node → node.lastApplied ≤ node.commitIndex

theorem within_member {id : String} {member : Member σ} (awake : inp ≠ .restart)
    (turn : MemberTurn c plan inp w id member) (within : w.Within) :
    ∀ node, member.node = some node → node.lastApplied ≤ node.commitIndex := by
  cases turn with
  | same => exact within id
  | down => rintro _ ⟨⟩
  | wake clusterID listed stopped given => exact absurd given awake
  | count node up =>
      rintro _ ⟨⟩
      exact within id node up
  | move node s up arrived move =>
      rintro _ ⟨⟩
      exact applied_within_move move (within id node up)

theorem within_turns (awake : inp ≠ .restart) (turns : Turns c plan inp w after)
    (within : w.Within) : after.Within :=
  run_invariant World.Within
    (fun _ _ turn within id => within_member awake (turn_member turn id) within) turns within

/-- If the event is a restart, the store it reads has not applied more than it has
committed. -/
def World.Restartable (w : World σ ρ) : Event → Prop
  | .restart id => (w.members id).store.lastApplied ≤ (w.members id).store.commitIndex
  | _ => True

instance decidableRestartable (w : World σ ρ) (event : Event) : Decidable (w.Restartable event) :=
  match event with
  | .restart id => Nat.decLe (w.members id).store.lastApplied (w.members id).store.commitIndex
  | .electionTimeout _ | .heartbeat _ | .deliver _ | .respond _ _ | .lose _ | .propose _ _
  | .collect _ | .expire _ | .deregister _ | .abandon _ | .abort _ | .crash _ => .isTrue trivial

theorem within_step {event : Event} (restartable : w.Restartable event)
    (stepped : c.step plan w event = some after) (within : w.Within) : after.Within := by
  cases step_turns stepped with
  | plain inp plain turns =>
      refine within_turns ?_ turns within
      rintro rfl
      exact plain
  | counted k j call resp node same counting turns =>
      refine within_turns (by rintro ⟨⟩) turns ?_
      intro id other up
      by_cases self : id = call.source
      · subst self
        rw [World.count, put_member] at up
        cases up
        exact within _ node counting.up
      · rw [World.count, put_member_ne _ _ _ _ self] at up
        exact within id other up
  | restarted id clusterID same member stopped turns =>
      subst same
      refine within_turns (by rintro ⟨⟩) turns ?_
      intro other node up
      by_cases self : other = id
      · rw [self, World.wake, put_member] at up
        cases up
        exact restartable
      · rw [World.wake, put_member_ne _ _ _ _ self] at up
        exact within other node up

/-- A step whose store calls may fail only to save the commit index, and which does
not restart a node on a store that has applied more than it has committed. -/
def Cluster.NextRestartable (c : Cluster σ ρ) (w after : World σ ρ) : Prop :=
  ∃ plan event, plan.steady ∧ w.Restartable event ∧ c.step plan w event = some after

def Cluster.restartableSteps (c : Cluster σ ρ) (w : World σ ρ) :
    List (Plan × Event) → Option (World σ ρ)
  | [] => some w
  | (plan, event) :: rest =>
      if w.Restartable event then (c.step plan w event).bind (c.restartableSteps · rest) else none

theorem restartableSteps_run (trace : List (Plan × Event)) (w after : World σ ρ)
    (steady : ∀ entry ∈ trace, entry.1.steady) (ran : c.restartableSteps w trace = some after) :
    ReflTransGen c.NextRestartable w after := by
  induction trace generalizing w with
  | nil =>
      cases ran
      exact ReflTransGen.refl
  | cons entry rest ih =>
      simp only [Cluster.restartableSteps] at ran
      split at ran
      · rename_i restartable
        obtain ⟨middle, stepped, more⟩ := Option.bind_eq_some_iff.mp ran
        refine ReflTransGen.head ⟨entry.1, entry.2, steady entry (by simp), restartable, stepped⟩ ?_
        exact ih middle (fun other member => steady other (by simp [member])) more
      · contradiction

end Checkpoints

structure Snapshot where
  role : Role
  term : UInt64
  commitIndex : UInt64
  lastApplied : UInt64
  lastLogIndex : UInt64
  deriving DecidableEq, Repr

/-- The gauges that `collect` sets from a snapshot alone, before the conversion to
floating point. -/
structure Gauges where
  role : List (Role × Nat)
  term : UInt64
  commitIndex : UInt64
  lastApplied : UInt64
  lastLogIndex : UInt64
  applyLag : UInt64
  deriving DecidableEq, Repr

def Node.snapshot (n : Node) : Snapshot where
  role := n.role
  term := UInt64.ofNat n.currentTerm
  commitIndex := UInt64.ofNat n.commitIndex
  lastApplied := UInt64.ofNat n.lastApplied
  lastLogIndex := UInt64.ofNat n.lastLogIndex

def collect (s : Snapshot) : Gauges where
  role := [Role.follower, .candidate, .leader].map fun role =>
    (role, if role = s.role then 1 else 0)
  term := s.term
  commitIndex := s.commitIndex
  lastApplied := s.lastApplied
  lastLogIndex := s.lastLogIndex
  applyLag := s.commitIndex - s.lastApplied

theorem applyLag_exact (n : Node) (within : n.lastApplied ≤ n.commitIndex)
    (fits : n.commitIndex < 2 ^ 64) :
    (collect n.snapshot).applyLag.toNat = n.commitIndex - n.lastApplied := by
  have ordered : UInt64.ofNat n.lastApplied ≤ UInt64.ofNat n.commitIndex := by
    rw [UInt64.le_iff_toNat_le, UInt64.toNat_ofNat_of_lt' fits,
      UInt64.toNat_ofNat_of_lt' (Nat.lt_of_le_of_lt within fits)]
    exact within
  simp only [collect, Node.snapshot]
  rw [UInt64.toNat_sub_of_le _ _ ordered, UInt64.toNat_ofNat_of_lt' fits,
    UInt64.toNat_ofNat_of_lt' (Nat.lt_of_le_of_lt within fits)]

/-- In every run in which only the write of the commit index fails, nodes crash
anywhere, and each restart finds no more applied than committed, every running node
has applied at most what it knows to be committed, and that lies within its log. -/
theorem applied_within_committed (c : Cluster σ ρ) (w : World σ ρ)
    (run : ReflTransGen c.NextRestartable c.init w) (id : String) (node : Node)
    (up : (w.members id).node = some node) :
    node.lastApplied ≤ node.commitIndex ∧ node.commitIndex ≤ node.lastLogIndex ∧
      (node.commitIndex < 2 ^ 64 →
        (collect node.snapshot).applyLag.toNat = node.commitIndex - node.lastApplied) := by
  have reachable : c.Reachable Plan.steady w := by
    refine ReflTransGen.mono ?_ _ _ run
    rintro before after ⟨plan, event, steady, _, stepped⟩
    exact ⟨plan, event, steady, stepped⟩
  have within : w.Within := by
    refine run_invariant World.Within ?_ run (by rintro id node ⟨⟩)
    rintro before after ⟨plan, event, _, restartable, stepped⟩ within
    exact within_step restartable stepped within
  have ordered := within id node up
  exact ⟨ordered, commit_within_log reachable up, applyLag_exact node ordered⟩

def Plan.unsaved : Plan
  | .setCommitIndex :: _ => .fail
  | _ => .pass

theorem unsaved_steady : Plan.unsaved.steady := by
  rintro op ⟨calls, failed⟩
  cases op <;> first | rfl | cases failed

theorem smooth_steady : Plan.smooth.steady := by
  rintro op ⟨calls, ⟨⟩⟩

/-- The first leader cannot save its first commit index, and applies the entry all the
same. -/
def commitUnsaved : List (Plan × Event) :=
  smoothly electFirst ++ [(Plan.smooth, .deliver 2), (Plan.unsaved, .respond 2 1)]

theorem smoothly_steady (events : List Event) : ∀ entry ∈ smoothly events, entry.1.steady := by
  intro entry member
  obtain ⟨event, _, rfl⟩ := List.mem_map.mp member
  exact smooth_steady

theorem commitUnsaved_steady : ∀ entry ∈ commitUnsaved, entry.1.steady := by
  intro entry member
  rcases List.mem_append.mp member with before | last
  · exact smoothly_steady _ entry before
  · simp only [List.mem_cons, List.not_mem_nil, or_false] at last
    rcases last with rfl | rfl
    · exact smooth_steady
    · exact unsaved_steady

theorem applied_within_committed_unsaved : ∃ w node, ReflTransGen trio.NextRestartable trio.init w ∧
    (w.members "a").node = some node ∧ (w.members "a").store.commitIndex < node.lastApplied ∧
      node.lastApplied ≤ node.commitIndex ∧ node.commitIndex ≤ node.lastLogIndex := by
  have ran : ((trio.restartableSteps trio.init commitUnsaved).bind fun w =>
      (w.members "a").node.map fun node =>
        (node.lastApplied, (w.members "a").store.commitIndex)) = some (1, 0) := by decide +kernel
  obtain ⟨w, reached, read⟩ := Option.bind_eq_some_iff.mp ran
  obtain ⟨node, up, seen⟩ := Option.map_eq_some_iff.mp read
  obtain ⟨applied, stored⟩ := Prod.mk.inj seen
  have run := restartableSteps_run commitUnsaved trio.init w commitUnsaved_steady reached
  have ordered := applied_within_committed trio w run "a" node up
  exact ⟨w, node, run, up, by omega, ordered.1, ordered.2.1⟩

/-- After a crash the node reports one entry applied and none committed, and a lag of
all but one of the 64-bit numbers. -/
theorem applied_ahead_of_committed : ∃ w node, trio.Reachable Plan.steady w ∧
    (w.members "a").node = some node ∧ node.commitIndex < node.lastApplied ∧
      (collect node.snapshot).applyLag = 18446744073709551615 := by
  have ran : ((trio.steps trio.init
      (commitUnsaved ++ smoothly [.crash "a", .restart "a"])).bind fun w =>
        (w.members "a").node.map fun node =>
          (node.commitIndex, node.lastApplied, (collect node.snapshot).applyLag)) =
      some (0, 1, 18446744073709551615) := by decide +kernel
  obtain ⟨w, reached, read⟩ := Option.bind_eq_some_iff.mp ran
  obtain ⟨node, up, seen⟩ := Option.map_eq_some_iff.mp read
  simp only [Prod.mk.injEq] at seen
  refine ⟨w, node, trio.steps_later _ trio.init w ?_ reached, up, by omega, seen.2.2⟩
  intro entry member
  rcases List.mem_append.mp member with before | last
  · exact commitUnsaved_steady entry before
  · exact smoothly_steady _ entry last

end QuorumLimiter
