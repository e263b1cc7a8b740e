import QuorumLimiter.Raft.Provenance
import QuorumLimiter.Raft.Requests

/-!
What a node has to send. Its requests are made of its term and of its log, and the
network may refuse the larger ones; so what can still be done from a state depends on
the logs as they are and on what has yet to be appended to them.
-/

namespace QuorumLimiter

open Relation ReplicatedLog

variable {σ ρ : Type}

/-- The commands that are asked for, and the requests that get to a peer. -/
structure Traffic where
  asks : List UInt8 → Prop
  carries : Request → Prop

/-- A request of node `id` in a term up to `top`, with `log` as its log. -/
inductive Sends (clusterID id : String) (top : Nat) (log : List LogEntry) : Request → Prop
  | vote (req : RequestVoteRequest) (version : req.protocolVersion = protocolVersion)
      (cluster : req.clusterID = clusterID) (source : req.sourceNodeID = id)
      (candidate : req.candidateID = id) (term : req.term ≤ top)
      (lastIndex : req.lastLogIndex = log.length) (lastTerm : req.lastLogTerm ≤ top) :
      Sends clusterID id top log (.vote req)
  | append (req : AppendEntriesRequest) (version : req.protocolVersion = protocolVersion)
      (cluster : req.clusterID = clusterID) (source : req.sourceNodeID = id)
      (leader : req.leaderID = id) (term : req.term ≤ top)
      (previous : req.prevLogIndex ≤ log.length) (prevTerm : req.prevLogTerm ≤ top)
      (entries : req.entries = log.drop req.prevLogIndex)
      (commit : req.leaderCommit ≤ log.length) : Sends clusterID id top log (.append req)

/-- Whatever the node sends gets through. -/
def Traffic.Fits (net : Traffic) (clusterID id : String) (top : Nat) (log : List LogEntry) : Prop :=
  ∀ req, Sends clusterID id top log req → net.carries req

def proposedTo (log : List LogEntry) (term : Nat) (command : List UInt8) : List LogEntry :=
  log ++ [⟨log.length + 1, term, .command, command⟩]

def ledFrom (log : List LogEntry) (term : Nat) : List LogEntry :=
  log ++ [⟨log.length + 1, term, .noop, []⟩]

/-- The node can be heard in terms up to `top`, and then can lead and have the command
replicated: in a term it leads already, or in the next after `top`. -/
structure Traffic.Room (net : Traffic) (clusterID id : String) (top : Nat)
    (command : List UInt8) (log : List LogEntry) : Prop where
  heard : net.Fits clusterID id (top + 1) log
  proposed : ∀ term ≤ top, net.Fits clusterID id (top + 1) (proposedTo log term command)
  elected : net.Fits clusterID id (top + 1) (proposedTo (ledFrom log (top + 1)) (top + 1) command)

section Sending

variable {c : Cluster σ ρ} {w : World σ ρ} {m : String} {node : Node} {log : List LogEntry}
  {clusterID id : String} {top : Nat}

theorem fits_mono {net : Traffic} {more : Nat} (fits : net.Fits clusterID id more log)
    (order : top ≤ more) : net.Fits clusterID id top log := by
  intro req sends
  apply fits
  cases sends with
  | vote req version cluster source candidate term lastIndex lastTerm =>
      exact Sends.vote req version cluster source candidate (by omega) lastIndex (by omega)
  | append req version cluster source leader term previous prevTerm entries commit =>
      exact Sends.append req version cluster source leader (by omega) previous (by omega) entries
        commit

theorem peers_listed (reachable : c.Reachable Plan.clean w)
    (up : (w.members m).node = some node) (peer : String) :
    peer ∈ node.peers ↔ peer ∈ c.ids ∧ peer ≠ m := by
  obtain ⟨_, _, valid⟩ := replicated_reachable reachable
  rw [(valid.votes.nodes m node up).peers, List.mem_filter, decide_eq_true_eq]

structure Node.Caches (n : Node) (log : List LogEntry) : Prop where
  tip : n.lastLogIndex = log.length
  commit : n.commitIndex ≤ log.length
  lastTerm : n.lastLogTerm ≤ n.currentTerm
  terms : ∀ entry ∈ log, entry.term ≤ n.currentTerm
  next : n.role = .leader → ∀ peer, n.nextIndex peer ≤ log.length + 1

theorem caches_reachable (reachable : c.Reachable Plan.clean w)
    (up : (w.members m).node = some node) (stores : StoresLog (w.members m).store.log log) :
    node.Caches log := by
  obtain ⟨g, counted, valid⟩ := replicated_reachable reachable
  obtain rfl := storesLog_unique stores (valid.logs.stores m)
  have logs := valid.logs.nodes m node up
  have sameTerm : g.term m = node.currentTerm :=
    (valid.votes.term m).trans (valid.votes.nodes m node up).term.symm
  have terms : ∀ entry ∈ g.log m, entry.term ≤ node.currentTerm := by
    intro entry member
    rw [← sameTerm]
    exact valid.logs.sound.log_term m entry member
  have inside := settled_length valid.logs.sound (valid.logs.commits m)
  refine ⟨logs.lastIndex, by rw [logs.commit]; exact inside, ?_, terms, ?_⟩
  · rw [logs.lastTerm, lastTerm]
    cases last : (g.log m).getLast? with
    | none => exact Nat.zero_le _
    | some entry => exact terms entry (List.mem_of_getLast? last)
  · intro leader peer
    rw [← logs.lastIndex]
    exact logs.next leader peer

theorem sends_append (reachable : c.Reachable Plan.clean w) (up : (w.members m).node = some node)
    (stores : StoresLog (w.members m).store.log log) (leader : node.role = .leader) {p : String}
    (member : p ∈ c.ids) (apart : p ≠ m) :
    Sends c.clusterID m node.currentTerm log (.append ((w.view m node).requestTo p)) := by
  have caches := caches_reachable reachable up stores
  have tip := caches.tip
  have next := caches.next leader p
  have positive := pointed_taken (later_taken reachable) m node up leader p
    ((peers_listed reachable up p).mpr ⟨member, apart⟩)
  have named : node.id = m := reachable_named reachable m node up
  have cluster := (identified_reachable reachable).running m node up
  have viewed : StoresLog (w.view m node).store.log log := stores
  have slice : Slice log ((w.view m node).requestTo p) := slice_built viewed List.prefix_rfl
    (consecutive_stored viewed) tip p (by change node.nextIndex p ≤ node.lastLogIndex + 1; omega)
  have whole := requestTo_whole viewed tip p positive next
  refine Sends.append _ rfl cluster named named (Nat.le_refl _) slice.previous ?_ ?_ caches.commit
  · rcases Nat.eq_zero_or_pos ((w.view m node).requestTo p).prevLogIndex with zero | above
    · change node.nextFor p - 1 = 0 at zero
      change (w.members m).store.termBefore (node.nextFor p - 1) ≤ _
      rw [zero]
      exact Nat.zero_le _
    · obtain ⟨entry, found, same⟩ := slice.prevTerm above
      rw [← same]
      exact caches.terms entry (List.mem_of_getElem? found)
  · exact slice.entries.eq_of_length (by rw [List.length_drop]; omega)

theorem sends_vote (reachable : c.Reachable Plan.clean w) (up : (w.members m).node = some node)
    (stores : StoresLog (w.members m).store.log log) :
    Sends c.clusterID m (node.currentTerm + 1) log
      (.vote (node.standFor (node.currentTerm + 1)).voteRequest) := by
  have caches := caches_reachable reachable up stores
  have named : node.id = m := reachable_named reachable m node up
  have cluster := (identified_reachable reachable).running m node up
  exact Sends.vote _ rfl cluster named named (Nat.le_refl _) caches.tip
    (Nat.le_succ_of_le caches.lastTerm)

end Sending

end QuorumLimiter
