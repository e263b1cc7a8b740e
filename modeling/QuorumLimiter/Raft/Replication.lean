import QuorumLimiter.Raft.Logs
import QuorumLimiter.Raft.Slices

/-!
The moves that write, ship and commit log entries, as steps of the history.
-/

namespace QuorumLimiter

open Voting ReplicatedLog

variable {σ ρ : Type} {c : Cluster σ ρ} {w : World σ ρ} {g : History}
  {counted : String → Finset String} {id : String} {node : Node}

theorem replicated_term (valid : Replicated c w g counted)
    (up : (w.members id).node = some node) : g.term id = node.currentTerm := by
  rw [valid.votes.term, (valid.votes.nodes id node up).term]

theorem replicated_leader (valid : Replicated c w g counted)
    (up : (w.members id).node = some node) (leader : node.role = .leader) :
    ∃ voters, g.elected (g.term id) = some (id, voters) ∧ g.log id = g.ledger node.currentTerm := by
  obtain ⟨voters, won⟩ := (valid.votes.nodes id node up).leading leader
  have current := replicated_term valid up
  exact ⟨voters, by rw [current]; exact won,
    valid.logs.sound.leader_log _ id voters won current⟩

section Leading

theorem replicated_write {t : Local σ ρ} (valid : Replicated c w g counted)
    (up : (w.members id).node = some node) (leader : node.role = .leader) (entry : LogEntry)
    (index : entry.index = node.lastLogIndex + 1) (term : entry.term = node.currentTerm)
    (same : SameBallot (w.view id node) t) (calls : t.calls = w.calls)
    (log : t.store.log = (w.members id).store.log.put entry.index entry)
    (commit : t.store.commitIndex = (w.members id).store.commitIndex)
    (lastIndex : t.node.lastLogIndex = entry.index) (tail : t.node.lastLogTerm = entry.term)
    (nodeCommit : t.node.commitIndex = node.commitIndex)
    (matched : t.node.matchIndex = node.matchIndex)
    (next : ∀ peer, t.node.nextIndex peer ≤ node.nextIndex peer ∨
      t.node.nextIndex peer = entry.index + 1) :
    Replicated c (w.put id t) (g.append id entry) counted ∧ Extends g (g.append id entry) := by
  -- A leader writes one entry of its term after its last one.
  have logs := valid.logs.nodes id node up
  have current := replicated_term valid up
  obtain ⟨voters, won, ledger⟩ := replicated_leader valid up leader
  have sound := ReplicatedLog.sound_append valid.logs.sound id voters entry won
    (by rw [current]; exact term)
  have extended : Extends g (g.append id entry) := ⟨grows_append id entry, fun _ => Nat.le_refl _⟩
  have acked := acked_append valid.logs.sound id voters entry won
  have grown : (g.append id entry).log id = g.log id ++ [entry] := by simp [Replicas.append]
  have position : entry.index = (g.log id).length + 1 := by rw [index, logs.lastIndex]
  have role : t.node.role = .leader := same.role.trans leader
  have reached : t.node.currentTerm = node.currentTerm := same.currentTerm
  refine ⟨⟨votes_quiet valid.votes up same calls, ?_⟩, extended⟩
  apply logs_put valid.votes valid.logs sound extended acked (fun _ _ _ _ => rfl) _ _ _ _ _ []
  · rw [calls, List.append_nil]
  · simp
  · intro other different
    exact ⟨by simp [Replicas.append, different], rfl⟩
  · intro other wonOther
    by_cases sameTerm : other = g.term id
    · have extendedLedger : (g.append id entry).ledger other = g.ledger other ++ [entry] := by
        simp [Replicas.append, sameTerm]
      rw [extendedLedger, sameTerm, current, ← ledger]
      have stored := storesLog_put (valid.logs.stores id) entry position
      exact consecutive_stored stored
    · have kept : (g.append id entry).ledger other = g.ledger other := by
        simp [Replicas.append, sameTerm]
      rw [kept]
      exact valid.logs.numbered other wonOther
  · rw [log, grown]
    exact storesLog_put (valid.logs.stores id) entry position
  · rw [commit]
    have settled := valid.logs.commits id
    refine settled_extends valid.logs.sound extended settled (Nat.le_refl _) ?_
    rw [grown, List.take_append_of_le_length (settled_length valid.logs.sound settled)]
  · refine ⟨?_, ?_, ?_, ?_, ?_, ?_, ?_⟩
    · rw [lastIndex, grown, List.length_append, List.length_singleton]
      exact position
    · rw [tail, grown, lastTerm_append]
    · rw [nodeCommit, commit]
      exact logs.commit
    · intro candidate
      rw [role] at candidate
      cases candidate
    · intro _
      rw [reached, ← current, grown]
      simp [Replicas.append]
    · intro _ peer
      rw [matched, reached]
      exact Nat.le_trans (logs.matched leader peer) (acked _ _)
    · intro _ peer
      have bound := logs.next leader peer
      rcases next peer with smaller | exact'
      · omega
      · omega

theorem acked_within (valid : Replicated c w g counted) (up : (w.members id).node = some node)
    (leader : node.role = .leader) (member : String) :
    g.acked member node.currentTerm ≤ node.lastLogIndex := by
  obtain ⟨_, _, ledger⟩ := replicated_leader valid up leader
  rcases Nat.eq_zero_or_pos (g.acked member node.currentTerm) with zero | positive
  · omega
  · obtain ⟨_, _, reach⟩ := valid.logs.sound.acked_bound member node.currentTerm positive
    rw [(valid.logs.nodes id node up).lastIndex, ledger]
    exact reach

theorem replicated_recordMatch (valid : Replicated c w g counted)
    (up : (w.members id).node = some node) (leader : node.role = .leader) (peer : String)
    (matchIndex : Nat) (backed : matchIndex ≤ g.acked peer node.currentTerm) :
    Replicated c (w.put id ((w.view id node).onNode (recordMatch peer matchIndex))) g counted := by
  have logs := valid.logs.nodes id node up
  have reach := acked_within valid up leader peer
  refine ⟨votes_quiet valid.votes up (sameBallot_recordMatch _ _) rfl, ?_⟩
  apply logs_quiet valid.votes valid.logs rfl rfl _ [] (List.append_nil _).symm (by simp)
  simp only [onNode_node, onNode_store, recordMatch]
  split
  · refine ⟨logs.lastIndex, logs.lastTerm, logs.commit, logs.running, logs.own, ?_, ?_⟩
    · intro role other
      dsimp only
      split
      · rename_i same
        rw [same]
        exact backed
      · exact logs.matched role other
    · intro role other
      dsimp only
      split
      · exact Nat.succ_le_succ (Nat.le_trans backed reach)
      · exact logs.next role other
  · exact logs

theorem replicated_backup (valid : Replicated c w g counted)
    (up : (w.members id).node = some node) (peer : String) (next : Nat)
    (bound : next ≤ node.lastLogIndex + 1) :
    Replicated c (w.put id ((w.view id node).onNode (setNextIndex peer next))) g counted := by
  have logs := valid.logs.nodes id node up
  refine ⟨votes_quiet valid.votes up (by constructor <;> rfl) rfl, ?_⟩
  apply logs_quiet valid.votes valid.logs rfl rfl _ [] (List.append_nil _).symm (by simp)
  refine ⟨logs.lastIndex, logs.lastTerm, logs.commit, logs.running, logs.own, logs.matched, ?_⟩
  intro role other
  simp only [onNode_node, setNextIndex]
  split
  · exact bound
  · exact logs.next role other

theorem lastIndexIn_le (store : Store σ) (term index : Nat) :
    lastIndexIn store term index ≤ index := by
  induction index with
  | zero => exact Nat.le_refl _
  | succ index ih =>
      unfold lastIndexIn
      split
      · split
        · exact Nat.le_refl _
        · omega
      · omega

theorem hintedNext_le (s : Local σ ρ) (resp : AppendEntriesResponse)
    (hint : resp.conflictIndex ≤ s.node.lastLogIndex) :
    hintedNext s resp ≤ s.node.lastLogIndex + 1 := by
  have bound := lastIndexIn_le s.store resp.conflictTerm s.node.lastLogIndex
  unfold hintedNext
  split
  · omega
  · split <;> omega

theorem requestLogs_built (valid : Replicated c w g counted)
    (up : (w.members id).node = some node) (leader : node.role = .leader) (peer : String) :
    RequestLogs g (node.appendRequest peer
      ((w.members id).store.termBefore (node.nextFor peer - 1))
      (if node.nextFor peer ≤ node.lastLogIndex then
        (w.members id).store.entries (node.nextFor peer) node.lastLogIndex else [])) := by
  -- The request a leader builds is a slice of its log.
  have logs := valid.logs.nodes id node up
  obtain ⟨_, _, ledger⟩ := replicated_leader valid up leader
  have slice : Slice (g.ledger node.currentTerm) _ := slice_built (s := w.view id node)
    (valid.logs.stores id) (ledger ▸ List.prefix_rfl)
    (ledger ▸ consecutive_stored (valid.logs.stores id)) logs.lastIndex peer (logs.next leader peer)
  refine ⟨slice.previous, slice.prevTerm, slice.entries, ?_⟩
  change Settled g (g.ledger node.currentTerm) node.currentTerm node.commitIndex
  rw [logs.commit, ← ledger, ← replicated_term valid up]
  exact valid.logs.commits id

theorem replicated_send {inp : Input} (valid : Replicated c w g counted)
    (up : (w.members id).node = some node) (arrived : Arrived w id inp)
    (leader : node.role = .leader) (peer : String) (prevTerm : Nat)
    (known : peer ∈ node.peers ∨ ∃ term resp, inp = .appendReply peer term resp)
    (previous : prevTerm = (w.members id).store.termBefore (node.nextFor peer - 1)) :
    Replicated c (w.put id ((w.view id node).append peer prevTerm)) g counted := by
  have logs := valid.logs.nodes id node up
  refine ⟨votes_append valid.votes up arrived peer prevTerm leader known, ?_⟩
  apply logs_quiet valid.votes valid.logs rfl rfl logs _ rfl
  intro call member
  simp only [List.map_cons, List.map_nil, List.mem_singleton] at member
  subst member
  refine ⟨by rintro req ⟨⟩, ?_⟩
  rintro req ⟨⟩
  subst previous
  exact requestLogs_built valid up leader peer

end Leading

section Following

theorem holds_ledger (valid : Replicated c w g counted) (term : Nat)
    (won : (g.elected term).isSome) : Matching (g.log id) (g.ledger term) :=
  attributed_match (valid.logs.sound.log_attributed id)
    (valid.logs.sound.ledger_attributed term won)

structure Received (g : History) (id : String) (req : AppendEntriesRequest) : Prop where
  leader : ∃ leader voters, g.elected req.term = some (leader, voters) ∧ leader ≠ id
  logs : RequestLogs g req

theorem received_of_arrived {req : AppendEntriesRequest} (valid : Replicated c w g counted)
    (arrived : Arrived w id (.appendRequest req)) : Received g id req := by
  obtain ⟨k, call, found, target, asked⟩ := arrived
  have sent := valid.votes.calls call (List.mem_of_getElem? found)
  obtain ⟨term, _, voters, won⟩ := sent.append req asked
  have logs := (valid.logs.calls call (List.mem_of_getElem? found)).append req asked
  have elected : g.elected req.term = some (call.source, voters) := by rw [term]; exact won
  refine ⟨⟨call.source, voters, elected, ?_⟩, logs⟩
  rw [← target]
  exact sent.apart.symm

theorem received_slice {req : AppendEntriesRequest} (valid : Replicated c w g counted)
    (received : Received g id req) :
    Slice (g.ledger req.term) req ∧ Matching (g.log id) (g.ledger req.term) := by
  obtain ⟨leader, voters, elected, _⟩ := received.leader
  have won : (g.elected req.term).isSome := by simp [elected]
  exact ⟨⟨valid.logs.numbered req.term won, received.logs.previous, received.logs.prevTerm,
    received.logs.entries⟩, holds_ledger valid req.term won⟩

theorem ledger_reach {req : AppendEntriesRequest} (valid : Replicated c w g counted)
    (received : Received g id req) :
    req.prevLogIndex + req.entries.length ≤ (g.ledger req.term).length :=
  slice_reach (received_slice valid received).1

theorem holdsEntries_agrees {req : AppendEntriesRequest} (valid : Replicated c w g counted)
    (received : Received g id req) (holds : HoldsEntries req (w.view id node)) :
    (g.log id).take (req.prevLogIndex + req.entries.length) =
      (g.ledger req.term).take (req.prevLogIndex + req.entries.length) := by
  obtain ⟨slice, matching⟩ := received_slice valid received
  obtain ⟨_, _, present⟩ := holds
  obtain ⟨previous, entries⟩ := present (slice_consecutive slice)
  exact slice_agrees slice (valid.logs.stores id) matching previous _ (Nat.le_refl _)
    fun position sent _ found => entries position sent found

theorem storesLog_tail {store : Store σ} {log : List LogEntry} (stores : StoresLog store.log log) :
    ((store.entry store.lastIndex).map (·.term)).getD 0 = lastTerm LogEntry.term log := by
  rw [storesLog_lastIndex stores]
  cases position : log.length with
  | zero =>
      rw [storesLog_sentinel stores, List.eq_nil_of_length_eq_zero position]
      rfl
  | succ last =>
      rw [storesLog_entry stores]
      obtain ⟨entry, found⟩ : ∃ entry, log[last]? = some entry :=
        ⟨_, List.getElem?_eq_getElem (by omega)⟩
      rw [lastTerm_getElem? LogEntry.term log last entry position.symm found, found]
      rfl

theorem replicated_overwrite {req : AppendEntriesRequest} {truncateFrom : Nat}
    {toAppend : List LogEntry} (valid : Replicated c w g counted)
    (up : (w.members id).node = some node) (received : Received g id req)
    (current : node.currentTerm = req.term) (follower : node.role = .follower)
    (held : HoldsPrevious req (w.view id node))
    (merged : reconcile (w.members id).store req.prevLogIndex req.entries =
      (truncateFrom, toAppend)) (needed : toAppend ≠ []) :
    Replicated c (w.put id ((w.view id node).overwrite truncateFrom toAppend).refresh)
      (g.adopt id (req.prevLogIndex + req.entries.length)) counted ∧
      Extends g (g.adopt id (req.prevLogIndex + req.entries.length)) := by
  have logs := valid.logs.nodes id node up
  have term : g.term id = req.term := by rw [replicated_term valid up, current]
  obtain ⟨leader, voters, won, apart⟩ := received.leader
  obtain ⟨slice, matching⟩ := received_slice valid received
  obtain ⟨stored, differs⟩ :=
    slice_merged slice (valid.logs.stores id) matching held.2 merged needed
  rw [← term] at stored differs won
  have sound := ReplicatedLog.sound_adopt valid.logs.sound id leader voters _ won apart differs
  have extended : Extends g (g.adopt id (req.prevLogIndex + req.entries.length)) :=
    ⟨grows_refl g, fun _ => Nat.le_refl _⟩
  have adopted : (g.adopt id (req.prevLogIndex + req.entries.length)).log id =
      (g.ledger (g.term id)).take (req.prevLogIndex + req.entries.length) := by
    simp [Replicas.adopt]
  refine ⟨⟨votes_quiet valid.votes up (by constructor <;> rfl) rfl, ?_⟩, extended⟩
  apply logs_put valid.votes valid.logs sound extended (fun _ _ => Nat.le_refl _)
    (fun _ _ _ _ => rfl) _ valid.logs.numbered _ _ _ []
  · exact (List.append_nil _).symm
  · simp
  · intro other different
    exact ⟨by simp [Replicas.adopt, different], rfl⟩
  · rw [adopted]
    exact stored
  · have settled := valid.logs.commits id
    refine settled_extends valid.logs.sound extended settled (Nat.le_refl _) ?_
    rw [adopted]
    exact settled_adopt valid.logs.sound settled (by simp [won]) differs
  · refine nodeLogs_follower ?_ ?_ logs.commit follower
    · rw [adopted]
      exact storesLog_lastIndex stored
    · rw [adopted]
      exact storesLog_tail stored

end Following

section Committing

theorem members_perm (votes : Votes c w g.toBooth counted)
    (up : (w.members id).node = some node) : (id :: node.peers).Perm c.ids := by
  have valid := votes.nodes id node up
  rw [valid.peers]
  exact perm_others c.ids id c.distinct valid.member

theorem majority_backed (valid : Replicated c w g counted)
    (up : (w.members id).node = some node) (leader : node.role = .leader) :
    ∃ backers, c.quorums.isQuorum backers ∧
      ∀ member ∈ backers, node.majorityIndex ≤ g.acked member node.currentTerm := by
  -- The index `advanceCommit` computes is acknowledged by a majority.
  have votes := valid.votes.nodes id node up
  have logs := valid.logs.nodes id node up
  have permuted := members_perm valid.votes up
  have distinct : (id :: node.peers).Nodup := permuted.nodup_iff.mpr c.distinct
  let value : String → Nat := fun member =>
    if member = id then node.lastLogIndex else node.matchIndex member
  have values : node.matches = (id :: node.peers).map value := by
    have others : node.peers.map node.matchIndex = node.peers.map value := by
      apply List.map_congr_left
      intro peer listed
      simp [value, (peers_other votes peer listed).2]
    simp [Node.matches, others, value]
  have positive : 0 < c.ids.length := List.length_pos_of_mem votes.member
  have enough := descending_reached (id :: node.peers) value node.quorum distinct
    (by rw [votes.quorum]; omega) (by rw [permuted.length_eq, votes.quorum]; omega)
  rw [← values] at enough
  refine ⟨(id :: node.peers).toFinset.filter (node.majorityIndex ≤ value ·), ⟨?_, ?_⟩, ?_⟩
  · intro member inside
    have listed := List.mem_toFinset.mp (Finset.mem_of_mem_filter member inside)
    exact List.mem_toFinset.mpr (permuted.mem_iff.mp listed)
  · rw [List.toFinset_card_of_nodup c.distinct, ← votes.quorum]
    exact enough
  · intro member inside
    have reached : node.majorityIndex ≤ value member := (Finset.mem_filter.mp inside).2
    by_cases same : member = id
    · simp only [value, if_pos same] at reached
      rw [same]
      exact Nat.le_trans reached (logs.lastIndex ▸ logs.own leader)
    · simp only [value, if_neg same] at reached
      exact Nat.le_trans reached (logs.matched leader member)

theorem replicated_setCommit {after : History} (valid : Replicated c w g counted)
    (up : (w.members id).node = some node) (index : Nat)
    (sound : ReplicatedLog.Sound c.quorums LogEntry.term after) (extended : Extends g after)
    (booth : after.toBooth = g.toBooth) (acked : after.acked = g.acked)
    (snap : after.snap = g.snap) (log : after.log = g.log) (ledger : after.ledger = g.ledger)
    (settled : Settled after (g.log id) (g.term id) index) :
    Replicated c (w.put id (((w.view id node).setCommit index).onStore (·.setCommitIndex index)))
      after counted := by
  have logs := valid.logs.nodes id node up
  have term : after.term = g.term := congrArg Booth.term booth
  have elected : after.elected = g.elected := congrArg Booth.elected booth
  refine ⟨?_, ?_⟩
  · rw [booth]
    exact votes_quiet valid.votes up (by constructor <;> rfl) rfl
  · apply logs_put valid.votes valid.logs sound extended _ _ _ _ _ _ _ []
    · exact (List.append_nil _).symm
    · simp
    · exact fun _ _ => by rw [acked]
    · exact fun _ _ _ _ => by rw [snap]
    · exact fun _ _ => by rw [log, term]; exact ⟨rfl, rfl⟩
    · rw [elected, ledger]
      exact valid.logs.numbered
    · rw [log]
      exact valid.logs.stores id
    · rw [log, term]
      exact settled
    · refine ⟨?_, ?_, rfl, ?_, ?_, ?_, logs.next⟩
      · rw [log]
        exact logs.lastIndex
      · rw [log]
        exact logs.lastTerm
      · rw [log, snap]
        exact logs.running
      · rw [log, acked]
        exact logs.own
      · rw [acked]
        exact logs.matched

theorem replicated_commit {inp : Input} (valid : Replicated c w g counted)
    (up : (w.members id).node = some node) (arrived : Arrived w id inp) (index : Nat)
    (rule : CommitRule inp (w.view id node) index) :
    ∃ after, Replicated c
      (w.put id (((w.view id node).setCommit index).onStore (·.setCommitIndex index)))
      after counted ∧ Extends g after := by
  have current := replicated_term valid up
  obtain ⟨above, ⟨leader, chosen, entry, found, own⟩ | ⟨req, rfl, holds, reported, bound⟩⟩ := rule
  · obtain ⟨voters, won, ledger⟩ := replicated_leader valid up leader
    obtain ⟨backers, quorum, backed⟩ := majority_backed valid up leader
    obtain ⟨before, rfl⟩ : ∃ before, index = before + 1 := ⟨index - 1, by omega⟩
    have stored : (g.log id)[before]? = some entry := by
      rw [← storesLog_entry (valid.logs.stores id)]
      exact found
    have sameTerm : entry.term = node.currentTerm := own
    have elected : (g.elected node.currentTerm).isSome := by
      rw [← current]
      simp [won]
    have sound := ReplicatedLog.sound_choose valid.logs.sound node.currentTerm before entry backers
      elected (by rw [← ledger]; exact stored) sameTerm quorum (by
        intro member inside
        rw [chosen]
        exact backed member inside)
    refine ⟨g.choose node.currentTerm (before + 1), ?_, extends_choose g _ _⟩
    apply replicated_setCommit valid up (before + 1) sound (extends_choose g _ _) rfl rfl rfl rfl rfl
    rw [current]
    apply settled_choose
    rw [ledger]
  · have received := received_of_arrived valid arrived
    have agrees := holdsEntries_agrees valid received holds
    have term : g.term id = req.term := current.trans holds.1
    refine ⟨g, ?_, extends_refl g⟩
    apply replicated_setCommit valid up index valid.logs.sound (extends_refl g) rfl rfl rfl rfl rfl
    rw [term]
    exact settled_extends valid.logs.sound (extends_refl g)
      (settled_shorter received.logs.commit reported) (Nat.le_refl _)
      (take_shorter _ _ _ _ bound agrees)

end Committing

section Answering

structure SameReplica (s t : Local σ ρ) : Prop where
  calls : t.calls = s.calls
  log : t.store.log = s.store.log
  commit : t.store.commitIndex = s.store.commitIndex
  lastIndex : t.node.lastLogIndex = s.node.lastLogIndex
  lastTerm : t.node.lastLogTerm = s.node.lastLogTerm
  nodeCommit : t.node.commitIndex = s.node.commitIndex
  matched : t.node.matchIndex = s.node.matchIndex
  next : t.node.nextIndex = s.node.nextIndex

theorem sameReplica_deliver {s : Local σ ρ} {apply : Option (ApplyFunc σ ρ)} {index term : Nat}
    {entry : LogEntry} {result : Option ρ} {after : Local σ ρ}
    (applied : applyStep apply index term entry s = .ok (result, after)) :
    SameReplica s (after.deliver index result) := by
  obtain ⟨lastApplied, app, rfl⟩ := applyStep_facts applied
  unfold Local.deliver
  split <;> constructor <;> rfl

theorem replicated_quiet {t : Local σ ρ} (valid : Replicated c w g counted)
    (up : (w.members id).node = some node) (same : SameBallot (w.view id node) t)
    (tail : SameReplica (w.view id node) t) : Replicated c (w.put id t) g counted := by
  have logs := valid.logs.nodes id node up
  refine ⟨votes_quiet valid.votes up same tail.calls, ?_⟩
  apply logs_quiet valid.votes valid.logs tail.log tail.commit _ []
    (by rw [tail.calls, List.append_nil]; rfl) (by simp)
  refine ⟨tail.lastIndex.trans logs.lastIndex, tail.lastTerm.trans logs.lastTerm, ?_, ?_, ?_, ?_, ?_⟩
  · exact tail.nodeCommit.trans (logs.commit.trans tail.commit.symm)
  · rw [same.role, same.currentTerm]
    exact logs.running
  · rw [same.role, same.currentTerm]
    exact logs.own
  · rw [same.role, same.currentTerm, tail.matched]
    exact logs.matched
  · rw [same.role, tail.next, tail.lastIndex]
    exact logs.next

theorem replicated_wake (valid : Replicated c w g counted) (clusterID : String)
    (member : id ∈ c.ids) :
    Replicated c (w.put id ((w.view id (c.config id).blank).wake clusterID)) g counted := by
  have stores := valid.logs.stores id
  refine ⟨votes_wake valid.votes clusterID member, ?_⟩
  apply logs_quiet valid.votes valid.logs rfl rfl _ [] (List.append_nil _).symm (by simp)
  exact nodeLogs_follower (storesLog_lastIndex stores) (storesLog_tail stores) rfl rfl

theorem replicated_down (valid : Replicated c w g counted) (id : String) :
    Replicated c (w.down id) g counted := by
  refine ⟨votes_down valid.votes id, valid.logs.sound, ?_, valid.logs.numbered, ?_, ?_,
    valid.logs.calls, valid.logs.replies⟩
  · intro other
    rw [down_store]
    exact valid.logs.stores other
  · intro other
    rw [down_store]
    exact valid.logs.commits other
  · intro other node up
    rw [down_store]
    exact valid.logs.nodes other node (down_up up)

theorem logs_outside {v : World σ ρ} (logs : Logs c w g) (members : v.members = w.members)
    (calls : v.calls = w.calls) (replies : v.replies = w.replies) : Logs c v g := by
  refine ⟨logs.sound, ?_, logs.numbered, ?_, ?_, ?_, ?_⟩
  · rw [members]
    exact logs.stores
  · rw [members]
    exact logs.commits
  · rw [members]
    exact logs.nodes
  · rw [calls]
    exact logs.calls
  · rw [replies, calls]
    exact logs.replies

theorem replicated_count {k : Nat} {call : Call} {req : RequestVoteRequest}
    {resp : RequestVoteResponse} (valid : Replicated c w g counted)
    (sent : w.calls[k]? = some call) (asked : call.request = .vote req)
    (answered : (k, .vote resp) ∈ w.replies) (pending : k ∉ w.settled)
    (up : (w.members call.source).node = some node)
    (counts : CountsVote call.term resp false (w.view call.source node)) :
    Replicated c ((w.settle k).put call.source (w.view call.source node).count) g
      (Function.update counted call.source (insert call.peer (counted call.source))) := by
  refine ⟨votes_count valid.votes sent asked answered pending up counts, ?_⟩
  have settled : Logs c (w.settle k) g := logs_outside valid.logs rfl rfl rfl
  have logs := valid.logs.nodes call.source node up
  apply logs_quiet (votes_settle valid.votes k) settled rfl rfl _ [] (List.append_nil _).symm
    (by simp)
  exact ⟨logs.lastIndex, logs.lastTerm, logs.commit, logs.running, logs.own, logs.matched, logs.next⟩

theorem replicated_answerVote {k : Nat} {call : Call} {req : RequestVoteRequest}
    {resp : RequestVoteResponse} (valid : Replicated c w g counted)
    (sent : w.calls[k]? = some call) (asked : call.request = .vote req)
    (up : (w.members call.peer).node = some node)
    (answer : VoteAnswer req resp (w.view call.peer node)) :
    Replicated c (w.answer k (.vote resp)) g counted := by
  refine ⟨votes_answerVote valid.votes sent asked up answer, valid.logs.sound, valid.logs.stores,
    valid.logs.numbered, valid.logs.commits, valid.logs.nodes, valid.logs.calls, ?_⟩
  intro j other member
  rcases List.mem_append.mp member with old | new
  · exact valid.logs.replies j other old
  · simp at new

theorem replicated_answerAppend {k : Nat} {call : Call} {req : AppendEntriesRequest}
    {resp : AppendEntriesResponse} (valid : Replicated c w g counted)
    (sent : w.calls[k]? = some call) (asked : call.request = .append req)
    (up : (w.members call.peer).node = some node)
    (answer : AppendAnswer req resp (w.view call.peer node)) :
    ∃ after, Replicated c (w.answer k (.append resp)) after counted ∧ Extends g after := by
  -- A successful answer acknowledges the ledger up to `matchIndex`.
  have votes : Votes c (w.answer k (.append resp)) g.toBooth counted :=
    votes_answer valid.votes k _ (by rintro _ ⟨⟩)
  by_cases success : resp.success = true
  · have received := received_of_arrived valid ⟨k, call, sent, rfl, asked⟩
    obtain ⟨holds, matched⟩ := answer.2.2 success
    have agrees := holdsEntries_agrees valid received holds
    have term : g.term call.peer = req.term := (replicated_term valid up).trans holds.1
    have callTerm : req.term = call.term :=
      ((valid.votes.calls call (List.mem_of_getElem? sent)).append req asked).1
    obtain ⟨leader, voters, won, _⟩ := received.leader
    have sound := ReplicatedLog.sound_ack valid.logs.sound call.peer
      (req.prevLogIndex + req.entries.length) (by rw [term]; simp [won])
      (by rw [term]; exact ledger_reach valid received) (by rw [term]; exact agrees)
    have acked := acked_ack (s := g) call.peer (req.prevLogIndex + req.entries.length)
    have extended : Extends g (g.ack call.peer (req.prevLogIndex + req.entries.length)) :=
      ⟨grows_refl g, fun _ => Nat.le_refl _⟩
    refine ⟨g.ack call.peer (req.prevLogIndex + req.entries.length), ⟨votes, sound,
      valid.logs.stores, valid.logs.numbered, ?_, ?_, ?_, ?_⟩, extended⟩
    · intro other
      exact settled_extends valid.logs.sound extended (valid.logs.commits other) (Nat.le_refl _) rfl
    · intro other node up
      have logs := valid.logs.nodes other node up
      exact ⟨logs.lastIndex, logs.lastTerm, logs.commit, logs.running,
        fun leader => Nat.le_trans (logs.own leader) (acked _ _),
        fun leader peer => Nat.le_trans (logs.matched leader peer) (acked _ _), logs.next⟩
    · intro other member
      exact callLogs_extends valid.logs.sound extended (fun _ _ _ _ => rfl)
        (valid.votes.calls other member) (valid.logs.calls other member)
    · intro j other member
      rcases List.mem_append.mp member with old | new
      · obtain ⟨call, req, found, asked, hint, done⟩ := valid.logs.replies j other old
        exact ⟨call, req, found, asked, hint, fun yes => Nat.le_trans (done yes) (acked _ _)⟩
      · simp only [List.mem_singleton, Prod.mk.injEq, Response.append.injEq] at new
        obtain ⟨rfl, rfl⟩ := new
        refine ⟨call, req, sent, asked, answer.2.1, fun _ => ?_⟩
        rw [matched, ← callTerm, ← term]
        simp [Replicas.ack]
  · refine ⟨g, ⟨votes, valid.logs.sound, valid.logs.stores, valid.logs.numbered,
      valid.logs.commits, valid.logs.nodes, valid.logs.calls, ?_⟩, extends_refl g⟩
    intro j other member
    rcases List.mem_append.mp member with old | new
    · exact valid.logs.replies j other old
    · simp only [List.mem_singleton, Prod.mk.injEq, Response.append.injEq] at new
      obtain ⟨rfl, rfl⟩ := new
      exact ⟨call, req, sent, asked, answer.2.1, fun yes => absurd yes success⟩

end Answering

section Runs

theorem reply_facts {peer : String} {term : Nat} {resp : AppendEntriesResponse}
    (valid : Replicated c w g counted) (up : (w.members id).node = some node)
    (leader : node.role = .leader) (current : term = node.currentTerm)
    (arrived : Arrived w id (.appendReply peer term resp)) :
    resp.conflictIndex ≤ node.lastLogIndex ∧
      (resp.success = true → resp.matchIndex ≤ g.acked peer node.currentTerm) := by
  -- What the answer to an append of the current term says of its receiver.
  obtain ⟨k, call, req, found, _, target, sentTerm, _, answered⟩ := arrived
  obtain ⟨answeredCall, sent, same, request, hint, success⟩ := valid.logs.replies k resp answered
  obtain rfl : answeredCall = call := Option.some.inj (same.symm.trans found)
  have member := List.mem_of_getElem? found
  have reqTerm : sent.term = node.currentTerm := by
    rw [((valid.votes.calls _ member).append sent request).1, sentTerm, current]
  obtain ⟨_, _, ledger⟩ := replicated_leader valid up leader
  have previous := ((valid.logs.calls _ member).append sent request).previous
  rw [reqTerm, ← ledger, ← (valid.logs.nodes id node up).lastIndex] at previous
  refine ⟨Nat.le_trans hint previous, fun yes => ?_⟩
  rw [← current, ← sentTerm, ← target]
  exact success yes

theorem replicated_move {plan : Plan} {inp : Input} {t : Local σ ρ} (clean : plan.clean)
    (valid : Replicated c w g counted) (up : (w.members id).node = some node)
    (arrived : Arrived w id inp) (move : Move c.apply plan inp (w.view id node) t) :
    ∃ after recounted, Replicated c (w.put id t) after recounted ∧ Extends g after := by
  have never : ∀ op, ¬ plan.mayFail op := fun op ⟨calls, failed⟩ => clean _ failed
  have logs := valid.logs.nodes id node up
  cases move with
  | stepDown term leaderID reached told named =>
      have hinted := votes_named valid.votes arrived named
      by_cases above : node.currentTerm < term
      · exact ⟨_, _, replicated_bump valid up term leaderID above hinted, extends_refl g⟩
      · have same : (w.view id node).advanceTerm term = w.view id node := if_neg above
        have current : node.currentTerm = term := Nat.le_antisymm reached (by omega)
        rw [same]
        exact ⟨_, _, replicated_follow valid up leaderID (current ▸ hinted), extends_refl g⟩
  | stand due notLeader => exact ⟨_, _, replicated_stand valid up, extends_refl g⟩
  | grant req asked current free upToDate =>
      subst asked
      obtain ⟨k, call, found, _, request⟩ := arrived
      by_cases fresh : node.votedFor = ""
      · exact ⟨_, _, replicated_grant valid up req call (List.mem_of_getElem? found) request
          current fresh upToDate, extends_refl g⟩
      · have again : node.votedFor = req.candidateID := free.resolve_left fresh
        have stored : (w.members id).store.votedFor = req.candidateID :=
          (valid.votes.nodes id node up).vote ▸ again
        refine ⟨_, _, replicated_quiet valid up ?_ (by constructor <;> rfl), extends_refl g⟩
        exact ⟨rfl, rfl, rfl, rfl, rfl, again.symm, rfl, rfl, rfl, stored.symm⟩
  | promote candidateID resp answered candidate won =>
      exact ⟨_, _, replicated_promote valid up candidate won⟩
  | assertLeadership leader =>
      refine ⟨_, _, replicated_write valid up leader node.noopEntry rfl rfl
        (by constructor <;> rfl) rfl rfl rfl rfl rfl rfl rfl ?_⟩
      intro peer
      by_cases own : peer = node.id
      · exact Or.inr (if_pos own)
      · exact Or.inl (Nat.le_of_eq (if_neg own))
  | propose command asked leader =>
      exact ⟨_, _, replicated_write valid up leader (node.commandEntry command) rfl rfl
        (by constructor <;> rfl) rfl rfl rfl rfl rfl rfl rfl fun _ => Or.inl (Nat.le_refl _)⟩
  | overwrite req truncateFrom toAppend asked current follower held merged needed =>
      subst asked
      have received := received_of_arrived valid arrived
      exact ⟨_, _, replicated_overwrite valid up received current follower held merged needed⟩
  | tear truncateFrom toAppend torn =>
      obtain ⟨calls, failed | failed⟩ := torn
      · exact absurd failed (clean _)
      · exact absurd failed (clean _)
  | commit index rule =>
      obtain ⟨after, holds, extended⟩ := replicated_commit valid up arrived index rule
      exact ⟨after, counted, holds, extended⟩
  | commitUnsaved index rule failed => exact absurd failed (never _)
  | applyNext after entry result behind found applied =>
      exact ⟨_, _, replicated_quiet valid up (sameBallot_deliver applied)
        (sameReplica_deliver applied), extends_refl g⟩
  | recordMatch peer term resp answered leader current success =>
      subst answered
      have backed := (reply_facts valid up leader current arrived).2 success
      exact ⟨_, _, replicated_recordMatch valid up leader peer resp.matchIndex backed,
        extends_refl g⟩
  | backup peer term resp next answered leader current rejected hinted =>
      subst answered
      have hint := (reply_facts valid up leader current arrived).1
      have bound := hintedNext_le (w.view id node) resp hint
      rw [← hinted.resolve_right (never _)] at bound
      exact ⟨_, _, replicated_backup valid up peer next bound, extends_refl g⟩
  | append peer prevTerm leader known previous =>
      exact ⟨_, _, replicated_send valid up arrived leader peer prevTerm known
        (previous.resolve_right (never _)), extends_refl g⟩
  | _ =>
      exact ⟨_, _, replicated_quiet valid up (by constructor <;> rfl) (by constructor <;> rfl),
        extends_refl g⟩

theorem replicated_turn {plan : Plan} {inp : Input} {after : World σ ρ} (clean : plan.clean)
    (valid : Replicated c w g counted) (turn : Turn c plan inp w after) :
    ∃ reached recounted, Replicated c after reached recounted ∧ Extends g reached := by
  cases turn with
  | move id node s up arrived move => exact replicated_move clean valid up arrived move
  | answerVote k call req resp node sent asked up answer =>
      exact ⟨_, _, replicated_answerVote valid sent asked up answer, extends_refl g⟩
  | answerAppend k call req resp node sent asked up answer =>
      obtain ⟨reached, holds, extended⟩ := replicated_answerAppend valid sent asked up answer
      exact ⟨reached, counted, holds, extended⟩
  | settle k =>
      exact ⟨_, _, ⟨votes_settle valid.votes k, logs_outside valid.logs rfl rfl rfl⟩, extends_refl g⟩
  | count k call req resp node sent asked answered pending up given counts =>
      exact ⟨_, _, replicated_count valid sent asked answered pending up counts, extends_refl g⟩
  | wake id clusterID member stopped =>
      exact ⟨_, _, replicated_wake valid clusterID member, extends_refl g⟩
  | down id => exact ⟨_, _, replicated_down valid id, extends_refl g⟩
  | proposal k state earned =>
      exact ⟨_, _, ⟨votes_proposal valid.votes k state, logs_outside valid.logs rfl rfl rfl⟩,
        extends_refl g⟩

end Runs

end QuorumLimiter
