import QuorumLimiter.Raft.Walks

/-!
Replication progress. An acceptance moves `nextIndex` past `matchIndex`; a refusal
moves it wherever its hints say. While no leader hears a refusal from a peer that
has already acknowledged something in the term, `nextIndex` stays above `matchIndex`.
-/

namespace QuorumLimiter

open Relation Simulation

variable {σ ρ α : Type}

/-- A leader will not send again what a peer has acknowledged. -/
structure Node.Ahead (n : Node) : Prop where
  apart : n.id ∉ n.peers
  above : n.role = .leader → ∀ peer ∈ n.peers, n.matchIndex peer < n.nextIndex peer

/-- If the input is a refusal the node acts on, the peer has acknowledged nothing yet. -/
def Timely (inp : Input) (n : Node) : Prop :=
  ∀ peer term resp, inp = .appendReply peer term resp → resp.success = false →
    n.role = .leader → term = n.currentTerm → n.matchIndex peer = 0

/-- The event hands a leader a refusal from a peer that has acknowledged something. -/
def lateRefusal (w : World σ ρ) : Event → Bool
  | .respond k j =>
      match w.calls[k]?, w.replies[j]? with
      | some call, some (_, .append resp) =>
          match (w.members call.source).node with
          | some node =>
              !resp.success && decide (resp.term ≤ node.currentTerm) &&
                decide (node.role = .leader) && decide (call.term = node.currentTerm) &&
                decide (0 < node.matchIndex call.peer)
          | none => false
      | _, _ => false
  | _ => false

section Moving

variable {apply : Option (ApplyFunc σ ρ)} {plan : Plan} {inp : Input} {s t : Local σ ρ}

theorem timely_other {n : Node} (other : ∀ peer term resp, inp ≠ .appendReply peer term resp) :
    Timely inp n :=
  fun peer term resp given => absurd given (other peer term resp)

theorem timely_idle {n : Node} (idle : n.role ≠ .leader) : Timely inp n :=
  fun _ _ _ _ _ leader => absurd leader idle

theorem ahead_idle {n : Node} (apart : n.id ∉ n.peers) (idle : n.role ≠ .leader) : n.Ahead :=
  ⟨apart, fun leader => absurd leader idle⟩

theorem hintedNext_pos (s : Local σ ρ) (resp : AppendEntriesResponse) : 0 < hintedNext s resp :=
  Nat.le_max_left _ _

theorem ahead_becomeLeader {n : Node} (apart : n.id ∉ n.peers) : n.becomeLeader.Ahead := by
  refine ⟨apart, ?_⟩
  intro _ peer listed
  change peer ∈ n.peers at listed
  change 0 < if peer ∈ n.peers then n.lastLogIndex + 1 else 0
  rw [if_pos listed]
  omega

theorem ahead_noopAppended {n : Node} (ahead : n.Ahead) (noop : LogEntry) :
    (n.noopAppended noop).Ahead := by
  refine ⟨ahead.apart, ?_⟩
  intro leader peer listed
  have other : peer ≠ n.id := by
    rintro rfl
    exact ahead.apart listed
  change n.matchIndex peer < if peer = n.id then noop.index + 1 else n.nextIndex peer
  rw [if_neg other]
  exact ahead.above leader peer listed

theorem ahead_recordMatch {n : Node} (ahead : n.Ahead) (peer : String) (matchIndex : Nat) :
    (recordMatch peer matchIndex n).Ahead := by
  unfold recordMatch
  by_cases more : matchIndex > n.matchIndex peer
  · rw [if_pos more]
    refine ⟨ahead.apart, ?_⟩
    intro leader other listed
    dsimp only
    by_cases same : other = peer
    · rw [if_pos same, if_pos same]
      omega
    · rw [if_neg same, if_neg same]
      exact ahead.above leader other listed
  · rw [if_neg more]
    exact ahead

theorem ahead_setNextIndex {n : Node} (ahead : n.Ahead) (peer : String) (next : Nat)
    (above : n.role = .leader → n.matchIndex peer < next) : (setNextIndex peer next n).Ahead := by
  refine ⟨ahead.apart, ?_⟩
  intro leader other listed
  change n.matchIndex other < if other = peer then next else n.nextIndex other
  by_cases same : other = peer
  · rw [if_pos same, same]
    exact above leader
  · rw [if_neg same]
    exact ahead.above leader other listed

theorem move_ahead (clean : plan.clean) (ahead : s.node.Ahead) (timely : Timely inp s.node)
    (move : Move apply plan inp s t) : t.node.Ahead ∧ Timely inp t.node := by
  have apart := ahead.apart
  cases move with
  | stepDown term leaderID =>
      have idle : ((s.advanceTerm term).follow leaderID).node.role ≠ .leader := by
        rw [follow_role]
        rintro ⟨⟩
      refine ⟨ahead_idle ?_ idle, timely_idle idle⟩
      rw [follow_node, Local.advanceTerm]
      split <;> exact apart
  | stand => exact ⟨ahead_idle apart (by rintro ⟨⟩), timely_idle (by rintro ⟨⟩)⟩
  | promote candidateID resp answered =>
      exact ⟨ahead_becomeLeader apart, timely_other (by simp [answered])⟩
  | assertLeadership => exact ⟨ahead_noopAppended ahead _, timely⟩
  | applyNext after entry result _ _ applied =>
      obtain ⟨lastApplied, app, rfl⟩ := applyStep_facts applied
      unfold Local.deliver
      split <;> exact ⟨⟨apart, ahead.above⟩, timely⟩
  | recordMatch peer term resp answered leader current success =>
      refine ⟨ahead_recordMatch ahead peer _, ?_⟩
      -- The input is an acceptance, so there is nothing to ask of a refusal.
      rintro _ _ _ given refused
      rw [answered] at given
      cases given
      simp [success] at refused
  | backup peer term resp next answered leader current rejected hinted =>
      refine ⟨ahead_setNextIndex ahead peer next ?_, timely⟩
      intro _
      have pointed : next = hintedNext s resp := by
        rcases hinted with pointed | ⟨_, failed⟩
        · exact pointed
        · exact absurd failed (clean _)
      rw [timely peer term resp answered rejected leader current, pointed]
      exact hintedNext_pos s resp
  | _ => exact ⟨⟨apart, ahead.above⟩, timely⟩

theorem moves_ahead (clean : plan.clean) (ahead : s.node.Ahead) (timely : Timely inp s.node)
    (path : Moves apply plan inp s t) : t.node.Ahead ∧ Timely inp t.node := by
  induction path with
  | refl => exact ⟨ahead, timely⟩
  | tail _ move ih => exact move_ahead clean ih.1 ih.2 move

end Moving

section Running

variable (c : Cluster σ ρ) {plan : Plan} {w after : World σ ρ}

variable {c} in
theorem outset_ahead {id : String} {inp : Input} {origin : Local σ ρ} (valid : w.Each Node.Ahead)
    (outset : Outset c w id inp origin) : origin.node.Ahead := by
  cases outset with
  | running _ node up => exact valid id node up
  | counted resp node up => exact ⟨(valid id node up).apart, (valid id node up).above⟩
  | woken clusterID =>
      have apart : id ∉ c.ids.filter (· ≠ id) := by simp
      exact ahead_idle apart (by rintro ⟨⟩)

variable {c} in
theorem outset_timely {event : Event} {id : String} {inp : Input} {origin : Local σ ρ}
    (fine : lateRefusal w event = false) (given : Given w event id inp)
    (outset : Outset c w id inp origin) : Timely inp origin.node := by
  rintro peer term resp rfl refused leader current
  obtain ⟨k, j, call, node, rfl, sent, replied, rfl, rfl, rfl, up, known⟩ := given
  cases outset with
  | running _ same there =>
      cases up.symm.trans there
      by_contra positive
      simp only [lateRefusal, sent, replied, up] at fine
      simp [refused, known, show node.role = .leader from leader,
        show call.term = node.currentTerm from current,
        show 0 < node.matchIndex call.peer from Nat.pos_of_ne_zero positive] at fine

theorem step_ahead {event : Event} (clean : plan.clean) (valid : w.Each Node.Ahead)
    (fine : lateRefusal w event = false) (stepped : c.step plan w event = some after) :
    after.Each Node.Ahead := by
  cases step_walked stepped with
  | caller => exact valid
  | crash id => exact each_down fun other node _ up => valid other node up
  | moved id inp origin s _ outset path landed given =>
      have ahead := moves_ahead clean (outset_ahead valid outset)
        (outset_timely fine given outset) path
      exact landed_each valid ahead.1 landed

/-- A step that hands no leader a late refusal. -/
def Cluster.NextTimely (w after : World σ ρ) : Prop :=
  ∃ plan event, plan.clean ∧ lateRefusal w event = false ∧ c.step plan w event = some after

def Cluster.timelySteps (w : World σ ρ) : List Event → Option (World σ ρ)
  | [] => some w
  | event :: rest =>
      if lateRefusal w event then none
      else
        match c.step Plan.smooth w event with
        | some after => timelySteps after rest
        | none => none

theorem timelySteps_run (events : List Event) (ran : c.timelySteps w events = some after) :
    ReflTransGen c.NextTimely w after := by
  induction events generalizing w with
  | nil =>
      cases ran
      exact ReflTransGen.refl
  | cons event rest ih =>
      rw [Cluster.timelySteps] at ran
      cases late : lateRefusal w event with
      | true => simp [late] at ran
      | false =>
          rw [if_neg (by simp [late])] at ran
          split at ran
          · rename_i middle stepped
            exact ReflTransGen.head ⟨Plan.smooth, event, smooth_clean, late, stepped⟩ (ih ran)
          · contradiction

/-- In a run without late refusals a leader's next request to a peer starts above
all that the peer has acknowledged. -/
theorem nextIndex_above_match (c : Cluster σ ρ) (w : World σ ρ)
    (run : ReflTransGen c.NextTimely c.init w) (id : String) (node : Node)
    (up : (w.members id).node = some node) (leader : node.role = .leader) (peer : String)
    (listed : peer ∈ node.peers) :
    node.matchIndex peer < node.nextIndex peer ∧ ∀ prevTerm entries,
      node.matchIndex peer ≤ (node.appendRequest peer prevTerm entries).prevLogIndex := by
  have ahead : w.Each Node.Ahead := by
    apply run_invariant (World.Each · Node.Ahead) _ run
    · rintro other node ⟨⟩
    · rintro before after ⟨plan, event, clean, fine, stepped⟩ valid
      exact step_ahead c clean valid fine stepped
  have above := (ahead id node up).above leader peer listed
  refine ⟨above, ?_⟩
  intro prevTerm entries
  change node.matchIndex peer ≤ node.nextFor peer - 1
  rw [Node.nextFor, if_neg (by omega)]
  omega

end Running

theorem nextIndex_above_match_trio :
    ∃ w node, ReflTransGen trio.NextTimely trio.init w ∧ (w.members "a").node = some node ∧
      node.matchIndex "b" = 1 ∧ node.matchIndex "b" < node.nextIndex "b" := by
  have played : (trio.timelySteps trio.init commitFirst).map (fun w => (w.members "a").node.map
      fun node => (node.role, node.matchIndex "b", decide ("b" ∈ node.peers))) =
      some (some (.leader, 1, true)) := by
    decide +kernel
  obtain ⟨w, ran, read⟩ := Option.map_eq_some_iff.mp played
  obtain ⟨node, up, facts⟩ := Option.map_eq_some_iff.mp read
  obtain ⟨leader, known, listed⟩ : node.role = .leader ∧ node.matchIndex "b" = 1 ∧
      decide ("b" ∈ node.peers) = true := by simpa only [Prod.mk.injEq] using facts
  have run := timelySteps_run trio commitFirst ran
  exact ⟨w, node, run, up, known, (nextIndex_above_match trio w run "a" node up leader "b"
    (of_decide_eq_true listed)).1⟩

/-- The second leader asks the third node twice about an entry it does not have; the
second refusal arrives when the node has caught up. -/
def refusedTwice : List Event :=
  commitFirst ++ [.restart "c", .electionTimeout "b", .deliver 7, .respond 7 2, .heartbeat "b",
    .deliver 9, .deliver 11, .respond 9 3, .deliver 12, .respond 12 5, .respond 11 4]

theorem nextIndex_falls_back :
    ∃ w node, trio.Reachable Plan.clean w ∧ (w.members "b").node = some node ∧
      node.role = .leader ∧ "c" ∈ node.peers ∧ node.matchIndex "c" = 2 ∧
      node.nextIndex "c" = 1 := by
  obtain ⟨w, reachable, seen⟩ := smoothly_reached trio smooth_clean refusedTwice
    (fun w => (w.members "b").node.map fun (node : Node) =>
      (node.role, decide ("c" ∈ node.peers), node.matchIndex "c", node.nextIndex "c"))
    (by decide +kernel : _ = some (some (Role.leader, true, 2, 1)))
  obtain ⟨node, up, facts⟩ := Option.map_eq_some_iff.mp seen
  obtain ⟨leader, listed, known, next⟩ : node.role = .leader ∧
      decide ("c" ∈ node.peers) = true ∧ node.matchIndex "c" = 2 ∧ node.nextIndex "c" = 1 := by
    simpa only [Prod.mk.injEq] using facts
  exact ⟨w, node, reachable, up, leader, of_decide_eq_true listed, known, next⟩

end QuorumLimiter
