import QuorumLimiter.Raft.BackOff
import QuorumLimiter.Raft.NextIndex

/-!
What a leader asks its peers to append. Its `nextIndex` for a peer starts past the
end of the log, and an answer moves it to an index of the log or one past it; so
the request for the peer is the log from there on, with nothing left out.
-/

namespace QuorumLimiter

open Relation ReplicatedLog Simulation

variable {σ ρ : Type}

/-- The request is the leader's stored log after the entry before `nextIndex`. -/
structure ExactSlice (store : Store σ) (n : Node) (peer : String)
    (req : AppendEntriesRequest) : Prop where
  previous : req.prevLogIndex = n.nextIndex peer - 1
  inside : req.prevLogIndex ≤ n.lastLogIndex
  prevTerm : ∃ entry, store.entry req.prevLogIndex = some entry ∧ entry.term = req.prevLogTerm
  sentinel : req.prevLogIndex = 0 → req.prevLogTerm = 0
  whole : req.prevLogIndex + req.entries.length = n.lastLogIndex
  stored : ∀ position sent, req.entries[position]? = some sent →
    store.entry (req.prevLogIndex + position + 1) = some sent
  numbered : Consecutive req.prevLogIndex req.entries
  commit : req.leaderCommit ≤ n.lastLogIndex

def Node.Pointed (n : Node) : Prop :=
  n.role = .leader → ∀ peer ∈ n.peers, 1 ≤ n.nextIndex peer

section Moving

variable {apply : Option (ApplyFunc σ ρ)} {plan : Plan} {inp : Input} {s t : Local σ ρ}

theorem pointed_idle {n : Node} (idle : n.role ≠ .leader) : n.Pointed :=
  fun leader => absurd leader idle

theorem pointed_becomeLeader (n : Node) : n.becomeLeader.Pointed := by
  intro _ peer listed
  change peer ∈ n.peers at listed
  change 1 ≤ if peer ∈ n.peers then n.lastLogIndex + 1 else 0
  rw [if_pos listed]
  omega

theorem pointed_noopAppended {n : Node} (pointed : n.Pointed) (noop : LogEntry) :
    (n.noopAppended noop).Pointed := by
  intro leader peer listed
  change 1 ≤ if peer = n.id then noop.index + 1 else n.nextIndex peer
  split
  · omega
  · exact pointed leader peer listed

theorem pointed_setNextIndex {n : Node} (pointed : n.Pointed) (peer : String) (next : Nat)
    (positive : 1 ≤ next) : (setNextIndex peer next n).Pointed := by
  intro leader other listed
  change 1 ≤ if other = peer then next else n.nextIndex other
  split
  · exact positive
  · exact pointed leader other listed

theorem pointed_recordMatch {n : Node} (pointed : n.Pointed) (peer : String) (matchIndex : Nat) :
    (recordMatch peer matchIndex n).Pointed := by
  unfold recordMatch
  split
  · exact pointed_setNextIndex pointed peer (matchIndex + 1) (by omega)
  · exact pointed

theorem move_pointed (clean : plan.clean) (pointed : s.node.Pointed)
    (move : Move apply plan inp s t) : t.node.Pointed := by
  cases move with
  | stepDown term leaderID =>
      apply pointed_idle
      rw [follow_role]
      rintro ⟨⟩
  | stand => exact pointed_idle (by rintro ⟨⟩)
  | promote => exact pointed_becomeLeader s.node
  | assertLeadership => exact pointed_noopAppended pointed _
  | applyNext after entry result _ _ applied =>
      obtain ⟨lastApplied, app, rfl⟩ := applyStep_facts applied
      unfold Local.deliver
      split <;> exact pointed
  | recordMatch peer term resp => exact pointed_recordMatch pointed peer _
  | backup peer term resp next answered leader current rejected hinted =>
      have hint : next = hintedNext s resp :=
        hinted.resolve_right fun ⟨_, failed⟩ => clean _ failed
      apply pointed_setNextIndex pointed
      rw [hint]
      exact hintedNext_pos s resp
  | _ => exact pointed

end Moving

section Running

variable {c : Cluster σ ρ} {plan : Plan} {inp : Input} {w after : World σ ρ}

theorem turn_pointed (clean : plan.clean) (valid : w.Each Node.Pointed)
    (turn : Turn c plan inp w after) :
    after.Each Node.Pointed := by
  intro id node up
  generalize reached : after.members id = member at up
  have single := turn_member turn id
  rw [reached] at single
  cases single with
  | same => exact valid id node up
  | down => contradiction
  | wake clusterID listed stopped given =>
      cases up
      exact pointed_idle (by rintro ⟨⟩)
  | count earlier running =>
      cases up
      exact valid id earlier running
  | move earlier s running arrived move =>
      cases up
      exact move_pointed clean (valid id earlier running) move

theorem pointed_taken (path : ReflTransGen (Taken c Plan.clean) c.init w) :
    w.Each Node.Pointed := by
  apply run_invariant (World.Each · Node.Pointed) _ path
  · rintro id node ⟨⟩
  · rintro _ _ ⟨plan, inp, clean, turn⟩ valid
    exact turn_pointed clean valid turn

end Running

section Building

variable {log : List LogEntry} {s : Local σ ρ}

theorem requestTo_exact (stores : StoresLog s.store.log log)
    (cached : s.node.lastLogIndex = log.length) (peer : String)
    (positive : 1 ≤ s.node.nextIndex peer) (bound : s.node.nextIndex peer ≤ s.node.lastLogIndex + 1)
    (commit : s.node.commitIndex ≤ s.node.lastLogIndex) :
    ExactSlice s.store s.node peer (s.requestTo peer) := by
  have slice : Slice log (s.requestTo peer) := slice_built stores List.prefix_rfl
    (consecutive_stored stores) cached peer bound
  have whole := requestTo_whole stores cached peer positive (by omega)
  have sentinel : (s.requestTo peer).prevLogIndex = 0 → (s.requestTo peer).prevLogTerm = 0 := by
    intro zero
    change s.node.nextFor peer - 1 = 0 at zero
    change s.store.termBefore (s.node.nextFor peer - 1) = 0
    rw [zero]
    rfl
  refine ⟨requestTo_previous s peer positive, by omega, ?_, sentinel, by omega, ?_,
    slice_consecutive slice, commit⟩
  · rcases Nat.eq_zero_or_pos (s.requestTo peer).prevLogIndex with zero | above
    · rw [zero, sentinel zero]
      exact ⟨logSentinel, storesLog_sentinel stores, rfl⟩
    · obtain ⟨entry, found, term⟩ := slice.prevTerm above
      refine ⟨entry, ?_, term⟩
      rw [← found, ← storesLog_entry stores, Nat.sub_add_cancel above]
  · intro position sent present
    rw [storesLog_entry stores]
    exact slice_entry slice position sent present

end Building

/-- In each state the cluster passes through, between two events or inside one, a
leader's request to a peer is its log from `nextIndex` on. -/
theorem replicateToPeer_exact (c : Cluster σ ρ) (before w : World σ ρ)
    (reachable : c.Reachable Plan.clean before)
    (through : ReflTransGen (Taken c Plan.clean) before w) (id peer : String) (node : Node)
    (up : (w.members id).node = some node) (leads : node.role = .leader)
    (listed : peer ∈ node.peers) :
    1 ≤ node.nextIndex peer ∧ node.nextIndex peer ≤ node.lastLogIndex + 1 ∧
    node.lastLogIndex = (w.members id).store.lastIndex ∧
    ∀ calls, Ends (replicateToPeer peer) calls (w.view id node) fun _ after =>
      ∃ req, ExactSlice (w.members id).store node peer req ∧
        after = (w.view id node).send node.currentTerm (.append req) [peer] := by
  have path := (later_taken reachable).trans through
  obtain ⟨g, counted, valid⟩ := replicated_taken path
  have logs := valid.logs.nodes id node up
  have stores := valid.logs.stores id
  have positive := pointed_taken path id node up leads peer listed
  have bound := logs.next leads peer
  have commit : node.commitIndex ≤ node.lastLogIndex := by
    rw [logs.commit, logs.lastIndex]
    exact settled_length valid.logs.sound (valid.logs.commits id)
  refine ⟨positive, bound, logs.lastIndex.trans (storesLog_lastIndex stores).symm, ?_⟩
  intro calls
  apply ends_mono (ends_replicateToPeer peer leads)
  intro _ after sent
  have slice := requestTo_exact (s := w.view id node) stores logs.lastIndex peer positive bound
    commit
  exact ⟨_, slice, sent⟩

/-- The first leader once its first entry is committed: nothing is left to send to the
node that acknowledged it, one entry to the other. -/
theorem replicateToPeer_exact_trio :
    ∃ w node, trio.Reachable Plan.clean w ∧ (w.members "a").node = some node ∧
      node.nextIndex "b" = 2 ∧ node.nextIndex "c" = 1 ∧
      ∀ peer ∈ node.peers, ∀ calls,
        Ends (replicateToPeer peer) calls (w.view "a" node) fun _ after =>
          ∃ req, ExactSlice (w.members "a").store node peer req ∧
            after = (w.view "a" node).send node.currentTerm (.append req) [peer] := by
  obtain ⟨w, reachable, seen⟩ := smoothly_reached trio smooth_clean commitFirst
    (fun w => (w.members "a").node.map fun (node : Node) =>
      (node.role, node.nextIndex "b", node.nextIndex "c"))
    (by decide +kernel : _ = some (some (Role.leader, 2, 1)))
  obtain ⟨node, up, facts⟩ := Option.map_eq_some_iff.mp seen
  obtain ⟨leads, first, second⟩ : node.role = .leader ∧ node.nextIndex "b" = 2 ∧
      node.nextIndex "c" = 1 := by simpa only [Prod.mk.injEq] using facts
  refine ⟨w, node, reachable, up, first, second, ?_⟩
  intro peer listed
  exact (replicateToPeer_exact trio w w reachable ReflTransGen.refl "a" peer node up leads
    listed).2.2.2

end QuorumLimiter
