import QuorumLimiter.Lib.CommitIndex
import QuorumLimiter.Raft.Votes

/-!
Logs, seen through the history of the cluster. Beside a cluster state stands a
`ReplicatedLog` history; `Logs` says how stored logs, cached tails, requests in
flight and answers agree with it. Under plans without failing store calls each
turn is a step of the history.
-/

namespace QuorumLimiter

open Voting ReplicatedLog

variable {σ ρ : Type}

abbrev History := Replicas String LogEntry

/-- An append request is a slice of its leader's log. -/
structure RequestLogs (g : History) (req : AppendEntriesRequest) : Prop where
  previous : req.prevLogIndex ≤ (g.ledger req.term).length
  prevTerm : 0 < req.prevLogIndex →
    ∃ entry, (g.ledger req.term)[req.prevLogIndex - 1]? = some entry ∧
      entry.term = req.prevLogTerm
  entries : req.entries <+: (g.ledger req.term).drop req.prevLogIndex
  commit : Settled g (g.ledger req.term) req.term req.leaderCommit

structure CallLogs (g : History) (call : Call) : Prop where
  vote : ∀ req, call.request = .vote req →
    req.lastLogIndex = (g.snap call.source call.term).length ∧
      req.lastLogTerm = lastTerm LogEntry.term (g.snap call.source call.term)
  append : ∀ req, call.request = .append req → RequestLogs g req

structure NodeLogs (g : History) (id : String) (node : Node) (store : Store σ) : Prop where
  lastIndex : node.lastLogIndex = (g.log id).length
  lastTerm : node.lastLogTerm = lastTerm LogEntry.term (g.log id)
  commit : node.commitIndex = store.commitIndex
  running : node.role = .candidate → g.snap id node.currentTerm = g.log id
  own : node.role = .leader → (g.log id).length ≤ g.acked id node.currentTerm
  matched : node.role = .leader → ∀ peer, node.matchIndex peer ≤ g.acked peer node.currentTerm
  next : node.role = .leader → ∀ peer, node.nextIndex peer ≤ node.lastLogIndex + 1

structure Logs (c : Cluster σ ρ) (w : World σ ρ) (g : History) : Prop where
  sound : ReplicatedLog.Sound c.quorums LogEntry.term g
  stores : ∀ id, StoresLog (w.members id).store.log (g.log id)
  numbered : ∀ term, (g.elected term).isSome → Consecutive 0 (g.ledger term)
  commits : ∀ id, Settled g (g.log id) (g.term id) (w.members id).store.commitIndex
  nodes : ∀ id node, (w.members id).node = some node → NodeLogs g id node (w.members id).store
  calls : ∀ call ∈ w.calls, CallLogs g call
  replies : ∀ k resp, (k, .append resp) ∈ w.replies → ∃ call req, w.calls[k]? = some call ∧
    call.request = .append req ∧ resp.conflictIndex ≤ req.prevLogIndex ∧
      (resp.success = true → resp.matchIndex ≤ g.acked call.peer call.term)

theorem logs_init (c : Cluster σ ρ) : Logs c c.init (Replicas.init String LogEntry) := by
  refine ⟨ReplicatedLog.sound_init _ _, fun _ => storesLog_migrated c.app, ?_, ?_, ?_, ?_, ?_⟩
  · rintro term ⟨⟩
  · exact fun _ => settled_zero _ _ _
  · rintro id node ⟨⟩
  · rintro call ⟨⟩
  · rintro k resp ⟨⟩

section Frames

variable {c : Cluster σ ρ} {w : World σ ρ} {g after : History} {counted : String → Finset String}
  {id : String} {t : Local σ ρ}

theorem requestLogs_extends {req : AppendEntriesRequest}
    (sound : ReplicatedLog.Sound c.quorums LogEntry.term g) (extended : Extends g after)
    (won : (g.elected req.term).isSome) (valid : RequestLogs g req) : RequestLogs after req := by
  obtain ⟨_, _, grows⟩ := grows_isSome g after extended.1 req.term won
  refine ⟨Nat.le_trans valid.previous grows.length_le, ?_, ?_, ?_⟩
  · intro positive
    obtain ⟨entry, found, term⟩ := valid.prevTerm positive
    exact ⟨entry, getElem?_of_grows _ _ _ _ grows found, term⟩
  · obtain ⟨rest, same⟩ := grows
    rw [← same, List.drop_append_of_le_length valid.previous]
    exact valid.entries.trans (List.prefix_append _ _)
  · exact settled_extends sound extended valid.commit (Nat.le_refl _)
      (take_of_grows _ _ _ grows (settled_length sound valid.commit))

theorem callLogs_extends {call : Call} (sound : ReplicatedLog.Sound c.quorums LogEntry.term g)
    (extended : Extends g after)
    (snaps : ∀ voter term candidate, g.ballot voter term = some candidate →
      after.snap voter term = g.snap voter term)
    (sent : CallVotes c g.toBooth call) (valid : CallLogs g call) : CallLogs after call := by
  refine ⟨?_, ?_⟩
  · intro req asked
    obtain ⟨_, _, standing⟩ := sent.vote req asked
    rw [snaps _ _ _ standing]
    exact valid.vote req asked
  · intro req asked
    obtain ⟨term, _, voters, won⟩ := sent.append req asked
    exact requestLogs_extends sound extended (by rw [term]; simp [won]) (valid.append req asked)

theorem logs_put (votes : Votes c w g.toBooth counted) (logs : Logs c w g)
    (sound : ReplicatedLog.Sound c.quorums LogEntry.term after) (extended : Extends g after)
    (acked : ∀ member term, g.acked member term ≤ after.acked member term)
    (snaps : ∀ voter term candidate, g.ballot voter term = some candidate →
      after.snap voter term = g.snap voter term)
    (others : ∀ other, other ≠ id → after.log other = g.log other ∧
      after.term other = g.term other)
    (numbered : ∀ term, (after.elected term).isSome → Consecutive 0 (after.ledger term))
    (stores : StoresLog t.store.log (after.log id))
    (commits : Settled after (after.log id) (after.term id) t.store.commitIndex)
    (self : NodeLogs after id t.node t.store)
    (sent : List Call) (calls : t.calls = w.calls ++ sent)
    (own : ∀ call ∈ sent, CallLogs after call) : Logs c (w.put id t) after := by
  refine ⟨sound, ?_, numbered, ?_, ?_, ?_, ?_⟩
  · intro other
    by_cases same : other = id
    · rw [same, put_member]
      exact stores
    · rw [put_member_ne _ _ _ _ same, (others other same).1]
      exact logs.stores other
  · intro other
    by_cases same : other = id
    · rw [same, put_member]
      exact commits
    · rw [put_member_ne _ _ _ _ same, (others other same).1, (others other same).2]
      exact settled_extends logs.sound extended (logs.commits other) (Nat.le_refl _) rfl
  · intro other node up
    by_cases same : other = id
    · subst other
      rw [put_member] at up ⊢
      cases up
      exact self
    · rw [put_member_ne _ _ _ _ same] at up ⊢
      have valid := logs.nodes other node up
      have log := (others other same).1
      refine ⟨by rw [log]; exact valid.lastIndex, by rw [log]; exact valid.lastTerm, valid.commit,
        ?_, ?_, ?_, valid.next⟩
      · intro candidate
        obtain ⟨_, _, member, ballots, _⟩ := (votes.nodes other node up).running candidate
        rw [snaps _ _ _ (ballots other member), log]
        exact valid.running candidate
      · intro leader
        rw [log]
        exact Nat.le_trans (valid.own leader) (acked _ _)
      · intro leader peer
        exact Nat.le_trans (valid.matched leader peer) (acked _ _)
  · intro call member
    rw [put_calls, calls, List.mem_append] at member
    rcases member with old | new
    · exact callLogs_extends logs.sound extended snaps (votes.calls call old) (logs.calls call old)
    · exact own call new
  · intro k resp member
    obtain ⟨call, req, found, asked, hint, success⟩ := logs.replies k resp member
    refine ⟨call, req, ?_, asked, hint, fun done => Nat.le_trans (success done) (acked _ _)⟩
    rw [put_calls, calls]
    exact getElem?_grown (List.prefix_append _ _) found

theorem logs_quiet (votes : Votes c w g.toBooth counted) (logs : Logs c w g)
    (log : t.store.log = (w.members id).store.log)
    (commit : t.store.commitIndex = (w.members id).store.commitIndex)
    (self : NodeLogs g id t.node t.store) (sent : List Call) (calls : t.calls = w.calls ++ sent)
    (own : ∀ call ∈ sent, CallLogs g call) : Logs c (w.put id t) g := by
  apply logs_put votes logs logs.sound (extends_refl g) (fun _ _ => Nat.le_refl _)
    (fun _ _ _ _ => rfl) (fun _ _ => ⟨rfl, rfl⟩) logs.numbered _ _ self sent calls own
  · rw [log]
    exact logs.stores id
  · rw [commit]
    exact logs.commits id

end Frames

structure Replicated (c : Cluster σ ρ) (w : World σ ρ) (g : History)
    (counted : String → Finset String) : Prop where
  votes : Votes c w g.toBooth counted
  logs : Logs c w g

section Terms

variable {c : Cluster σ ρ} {w : World σ ρ} {g : History} {counted : String → Finset String}
  {id : String} {node : Node}

theorem nodeLogs_follower {after : History} {n : Node} {store : Store σ}
    (lastIndex : n.lastLogIndex = (after.log id).length)
    (tail : n.lastLogTerm = lastTerm LogEntry.term (after.log id))
    (commit : n.commitIndex = store.commitIndex) (follower : n.role = .follower) :
    NodeLogs after id n store := by
  refine ⟨lastIndex, tail, commit, ?_, ?_, ?_, ?_⟩ <;> rw [follower] <;> rintro ⟨⟩

theorem replicated_follow (valid : Replicated c w g counted)
    (up : (w.members id).node = some node) (leaderID : String)
    (hinted : leaderID ≠ "" → ∃ voters, g.elected node.currentTerm = some (leaderID, voters)) :
    Replicated c (w.put id ((w.view id node).follow leaderID)) g counted := by
  have logs := valid.logs.nodes id node up
  refine ⟨votes_follow valid.votes up leaderID hinted, ?_⟩
  apply logs_quiet valid.votes valid.logs _ _ _ []
  · rw [follow_calls, List.append_nil]
    rfl
  · simp
  · rw [follow_store]
    rfl
  · rw [follow_store]
    rfl
  · rw [follow_store]
    apply nodeLogs_follower _ _ _ (follow_role _ _) <;> rw [follow_node]
    · exact logs.lastIndex
    · exact logs.lastTerm
    · exact logs.commit

theorem replicated_bump (valid : Replicated c w g counted)
    (up : (w.members id).node = some node) (term : Nat) (leaderID : String)
    (above : node.currentTerm < term)
    (hinted : leaderID ≠ "" → ∃ voters, g.elected term = some (leaderID, voters)) :
    Replicated c (w.put id (((w.view id node).advanceTerm term).follow leaderID))
      (g.bump id term) counted := by
  have logs := valid.logs.nodes id node up
  have later : g.term id < term := by
    rw [valid.votes.term, ← (valid.votes.nodes id node up).term]
    exact above
  have advanced : (w.view id node).advanceTerm term =
      ((w.view id node).onStore (·.setTermAndVote term "")).onNode
        fun n => { n with currentTerm := term, votedFor := "" } := if_pos above
  have extended : Extends g (g.bump id term) := ⟨grows_refl g, fun _ => Nat.le_refl _⟩
  refine ⟨votes_bump valid.votes up term leaderID above hinted, ?_⟩
  rw [advanced]
  apply logs_put valid.votes valid.logs (ReplicatedLog.sound_bump valid.logs.sound id term later)
    extended (fun _ _ => Nat.le_refl _) (fun _ _ _ _ => rfl) _ valid.logs.numbered _ _ _ []
  · rw [follow_calls, List.append_nil]
    rfl
  · simp
  · intro other different
    exact ⟨rfl, by simp [Replicas.bump, Booth.bump, different]⟩
  · rw [follow_store]
    exact valid.logs.stores id
  · rw [follow_store]
    refine settled_extends valid.logs.sound extended (valid.logs.commits id) ?_ rfl
    simp only [Replicas.bump, Booth.bump, Function.update_self]
    omega
  · rw [follow_store]
    apply nodeLogs_follower _ _ _ (follow_role _ _) <;> rw [follow_node]
    · exact logs.lastIndex
    · exact logs.lastTerm
    · exact logs.commit

theorem snap_stand (g : History) (id : String) (term : Nat) :
    (g.stand id term).snap id term = g.log id := by
  simp [Replicas.stand, Replicas.cast, Replicas.bump, Booth.bump]

theorem replicated_stand (valid : Replicated c w g counted)
    (up : (w.members id).node = some node) :
    Replicated c (w.put id (w.view id node).stand) (g.stand id (node.currentTerm + 1))
      (Function.update counted id {id}) := by
  have logs := valid.logs.nodes id node up
  have identity := (valid.votes.nodes id node up).identity
  have current : g.term id = node.currentTerm := by
    rw [valid.votes.term, (valid.votes.nodes id node up).term]
  have extended : Extends g (g.stand id (node.currentTerm + 1)) :=
    ⟨grows_refl g, fun _ => Nat.le_refl _⟩
  refine ⟨votes_stand valid.votes up, ?_⟩
  apply logs_put valid.votes valid.logs
    (ReplicatedLog.sound_stand valid.logs.sound id _ (by omega)) extended
    (fun _ _ => Nat.le_refl _) _ _ valid.logs.numbered _ _ _ (node.peers.map fun peer => ⟨node.id, peer,
      node.currentTerm + 1, .vote (node.standFor (node.currentTerm + 1)).voteRequest⟩) rfl
  · intro call member
    obtain ⟨peer, _, rfl⟩ := List.mem_map.mp member
    refine ⟨?_, ?_⟩
    · rintro req ⟨⟩
      rw [identity, snap_stand]
      exact ⟨logs.lastIndex, logs.lastTerm⟩
    · rintro req ⟨⟩
  · intro voter term candidate cast
    have bound := valid.votes.sound.ballot_term voter term candidate cast
    simp only [Replicas.stand, Replicas.cast, Replicas.bump, Booth.bump, Function.update_self]
    rw [if_neg]
    rintro ⟨rfl, rfl⟩
    omega
  · intro other different
    refine ⟨rfl, ?_⟩
    simp [Replicas.stand, Replicas.cast, Replicas.bump, Booth.cast, Booth.bump, different]
  · exact valid.logs.stores id
  · refine settled_extends valid.logs.sound extended (valid.logs.commits id) ?_ rfl
    simp only [Replicas.stand, Replicas.cast, Replicas.bump, Booth.cast, Booth.bump,
      Function.update_self]
    omega
  · refine ⟨logs.lastIndex, logs.lastTerm, logs.commit, ?_, ?_, ?_, ?_⟩
    · intro _
      exact snap_stand g id (node.currentTerm + 1)
    all_goals rintro ⟨⟩

/-- The code's comparison of last entries is the library's order on logs. -/
theorem upToDate_of_request {log candidate : List LogEntry} {lastLogTerm lastLogIndex : Nat}
    (lastIndex : node.lastLogIndex = log.length)
    (tail : node.lastLogTerm = lastTerm LogEntry.term log)
    (index : lastLogIndex = candidate.length)
    (term : lastLogTerm = lastTerm LogEntry.term candidate)
    (compared : node.candidateLogUpToDate lastLogTerm lastLogIndex = true) :
    UpToDate LogEntry.term candidate log := by
  rw [UpToDate, ← tail, ← term, ← lastIndex, ← index]
  unfold Node.candidateLogUpToDate at compared
  split at compared
  · exact Or.inl (by simpa using compared)
  · rename_i same
    exact Or.inr ⟨(not_not.mp same).symm, by simpa using compared⟩

theorem replicated_grant (valid : Replicated c w g counted)
    (up : (w.members id).node = some node) (req : RequestVoteRequest) (call : Call)
    (member : call ∈ w.calls) (asked : call.request = .vote req)
    (current : req.term = node.currentTerm) (free : node.votedFor = "")
    (compared : node.candidateLogUpToDate req.lastLogTerm req.lastLogIndex = true) :
    Replicated c (w.put id ((w.view id node).grant req.candidateID)) (g.cast id req.candidateID)
      counted := by
  have logs := valid.logs.nodes id node up
  have votes := valid.votes.nodes id node up
  have sent := valid.votes.calls call member
  obtain ⟨term, candidate, standing⟩ := sent.vote req asked
  obtain ⟨index, tail⟩ := (valid.logs.calls call member).vote req asked
  have reached : g.term id = call.term := by
    rw [valid.votes.term, ← votes.term, ← current, term]
  have fresh : g.ballot id (g.term id) = none := by
    rw [valid.votes.ballot, ← votes.vote, free]
    rfl
  have extended : Extends g (g.cast id req.candidateID) := ⟨grows_refl g, fun _ => Nat.le_refl _⟩
  refine ⟨votes_grant valid.votes up req.candidateID ?_ free ?_, ?_⟩
  · exact candidate ▸ c.named _ sent.sender
  · rw [candidate, ← current, term]
    exact standing
  · apply logs_put valid.votes valid.logs (ReplicatedLog.sound_cast valid.logs.sound id _ fresh _)
      extended (fun _ _ => Nat.le_refl _) _ (fun _ _ => ⟨rfl, rfl⟩) valid.logs.numbered _ _ _ []
    · exact (List.append_nil _).symm
    · simp
    · rw [candidate, reached]
      exact Or.inl ⟨standing,
        upToDate_of_request logs.lastIndex logs.lastTerm index tail compared⟩
    · intro voter other chosen cast
      simp only [Replicas.cast]
      rw [if_neg]
      rintro ⟨rfl, rfl⟩
      rw [fresh] at cast
      contradiction
    · exact valid.logs.stores id
    · exact settled_extends valid.logs.sound extended (valid.logs.commits id) (Nat.le_refl _) rfl
    · refine ⟨logs.lastIndex, logs.lastTerm, logs.commit, ?_, logs.own, logs.matched, logs.next⟩
      intro running
      obtain ⟨_, _, self, ballots, _⟩ := votes.running running
      have own := ballots id self
      rw [valid.votes.term, ← votes.term] at fresh
      rw [fresh] at own
      contradiction

theorem replicated_promote (valid : Replicated c w g counted)
    (up : (w.members id).node = some node) (candidate : node.role = .candidate)
    (won : node.quorum ≤ node.votesGranted) :
    Replicated c (w.put id ((w.view id node).onNode Node.becomeLeader))
      ((g.elect id (counted id)).ack id (g.log id).length) counted ∧
      Extends g ((g.elect id (counted id)).ack id (g.log id).length) := by
  have logs := valid.logs.nodes id node up
  have votes := valid.votes.nodes id node up
  have current : g.term id = node.currentTerm := by rw [valid.votes.term, votes.term]
  obtain ⟨vacant, promoted⟩ := votes_promote valid.votes up candidate won
  obtain ⟨_, _, self, ballots, _⟩ := votes.running candidate
  have quorum := majority_of_count votes candidate won
  rw [← current] at vacant ballots
  have electedSound := ReplicatedLog.sound_elect valid.logs.sound id (counted id) vacant quorum self
    ballots (by rw [current]; exact logs.running candidate)
  have ledger : (g.elect id (counted id)).ledger (g.term id) = g.log id := by
    simp [Replicas.elect]
  have sound := ReplicatedLog.sound_ack electedSound id (g.log id).length
    (by simp [Replicas.elect, Booth.elect]) (by
      change (g.log id).length ≤ ((g.elect id (counted id)).ledger (g.term id)).length
      rw [ledger]) (by
      change (g.log id).take _ = ((g.elect id (counted id)).ledger (g.term id)).take _
      rw [ledger])
  have extended : Extends g ((g.elect id (counted id)).ack id (g.log id).length) :=
    ⟨grows_elect id (counted id) vacant, fun _ => Nat.le_refl _⟩
  have acked : ∀ member term, g.acked member term ≤
      ((g.elect id (counted id)).ack id (g.log id).length).acked member term := by
    intro member term
    exact acked_ack (s := g.elect id (counted id)) id _ member term
  refine ⟨⟨promoted, ?_⟩, extended⟩
  apply logs_put valid.votes valid.logs sound extended acked (fun _ _ _ _ => rfl)
    (fun _ _ => ⟨rfl, rfl⟩) _ _ _ _ []
  · exact (List.append_nil _).symm
  · simp
  · intro term wonTerm
    change ((g.elect id (counted id)).elected term).isSome at wonTerm
    change Consecutive 0 ((g.elect id (counted id)).ledger term)
    by_cases same : term = g.term id
    · rw [same, ledger]
      exact consecutive_stored (valid.logs.stores id)
    · have kept : (g.elect id (counted id)).ledger term = g.ledger term := by
        simp [Replicas.elect, same]
      rw [kept]
      apply valid.logs.numbered
      simpa [Replicas.elect, Booth.elect, same] using wonTerm
  · exact valid.logs.stores id
  · exact settled_extends valid.logs.sound extended (valid.logs.commits id) (Nat.le_refl _) rfl
  · refine ⟨logs.lastIndex, logs.lastTerm, logs.commit, by rintro ⟨⟩, ?_, ?_, ?_⟩
    · intro _
      change (g.log id).length ≤
        ((g.elect id (counted id)).ack id (g.log id).length).acked id node.currentTerm
      rw [← current]
      simp [Replicas.ack, Replicas.elect, Booth.elect]
    · exact fun _ _ => Nat.zero_le _
    · intro _ peer
      change (if peer ∈ node.peers then node.lastLogIndex + 1 else 0) ≤ node.lastLogIndex + 1
      split <;> omega

end Terms

end QuorumLimiter
