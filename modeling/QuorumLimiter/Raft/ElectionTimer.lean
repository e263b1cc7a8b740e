import QuorumLimiter.Raft.Moves

/-!
What a vote request does to the election timer. Whatever the term, a vote that is
granted arms a new timer; a request of a higher term arms one as well, in
`becomeFollower`, before the vote is looked at.
-/

namespace QuorumLimiter

variable {σ ρ : Type} {plan : Plan} {calls : List StoreOp}

def SameTimer (s t : Local σ ρ) : Prop :=
  t.node.electionCh = s.node.electionCh ∧ t.node.timers = s.node.timers

theorem follow_timer (s : Local σ ρ) (leaderID : String) :
    (s.follow leaderID).node.electionCh = some s.node.timers ∧
      (s.follow leaderID).node.timers = s.node.timers + 1 := by
  rw [follow_node]
  exact ⟨rfl, rfl⟩

/-- A request of this cluster that raises the term, which the store takes, and is
then refused: the candidate's log is behind, or the vote is not written. -/
structure RefusedAbove (plan : Plan) (s : Local σ ρ) (req : RequestVoteRequest) :
    Prop where
  version : req.protocolVersion = protocolVersion
  cluster : req.clusterID = s.node.clusterID
  above : s.node.currentTerm < req.term
  raised : plan [.setTermAndVote] = .pass
  denied : s.node.candidateLogUpToDate req.lastLogTerm req.lastLogIndex = false ∨
    plan [.setVotedFor, .setTermAndVote] = .fail

section Casting

variable (req : RequestVoteRequest) (resp : RequestVoteResponse)

theorem castVote_behind {s : Local σ ρ}
    (behind : s.node.candidateLogUpToDate req.lastLogTerm req.lastLogIndex = false) :
    (castVote req resp).run plan calls s =
      (some { resp with term := s.node.currentTerm }, calls, s) := by
  simp [castVote, bind, Proc.get, behind, pure]

theorem castVote_unwritten {s : Local σ ρ} (free : s.node.votedFor = "")
    (upToDate : s.node.candidateLogUpToDate req.lastLogTerm req.lastLogIndex = true)
    (failed : plan (.setVotedFor :: calls) = .fail) :
    (castVote req resp).run plan calls s =
      (some { resp with term := s.node.currentTerm }, .setVotedFor :: calls, s) := by
  simp [castVote, bind, Proc.get, free, upToDate, persistVote, writeStore, Proc.write,
    Proc.perform, failed, pure]

theorem castVote_refused (s : Local σ ρ) :
    (castVote req resp).wp plan
      (fun answer _ after => answer.voteGranted = false → after = s ∧
        (s.node.votedFor = "" →
          s.node.candidateLogUpToDate req.lastLogTerm req.lastLogIndex = false ∨
            plan (.setVotedFor :: calls) = .fail))
      (fun _ => True) calls s := by
  -- a vote not granted leaves the node as the term rules left it, and if the node had no
  -- vote yet in the term there are two reasons only
  unfold castVote persistVote
  rw [Proc.wp_bind, Proc.wp_get]
  dsimp only
  by_cases votes : ¬(s.node.votedFor ≠ "" ∧ s.node.votedFor ≠ req.candidateID) ∧
      s.node.candidateLogUpToDate req.lastLogTerm req.lastLogIndex = true
  · rw [if_pos votes, Proc.wp_bind, Proc.wp_bind]
    apply Proc.wp_write
    · intro _ granted
      cases granted
    · exact fun failed _ => ⟨rfl, fun _ => Or.inr failed⟩
    · exact fun _ => trivial
  · rw [if_neg votes]
    refine fun _ => ⟨rfl, fun free => Or.inl ?_⟩
    rw [← Bool.not_eq_true]
    exact fun upToDate => votes ⟨fun taken => taken.1 free, upToDate⟩

end Casting

section Requests

variable (s : Local σ ρ) (req : RequestVoteRequest)

/-- The node after the term of the request was written and taken over. -/
def Local.raiseTo (s : Local σ ρ) (term : Nat) : Local σ ρ :=
  ((s.onStore (·.setTermAndVote term "")).onNode
    fun n => { n with currentTerm := term, votedFor := "" }).follow ""

theorem raiseTo_facts (term : Nat) :
    (s.raiseTo term).node.votedFor = "" ∧ ¬ SameTimer s (s.raiseTo term) ∧
      (s.raiseTo term).node.candidateLogUpToDate = s.node.candidateLogUpToDate := by
  rw [Local.raiseTo, SameTimer, (follow_timer _ _).1, (follow_timer _ _).2, follow_node]
  refine ⟨rfl, ?_, rfl⟩
  rintro ⟨_, counted⟩
  simp [Local.onNode, Local.onStore] at counted

theorem handleRequestVote_above (refused : RefusedAbove plan s req) :
    ∃ resp made, (handleRequestVote req).run plan [] s = (some resp, made, s.raiseTo req.term) ∧
      resp.voteGranted = false := by
  have known : ¬(req.protocolVersion ≠ protocolVersion ∨ req.clusterID ≠ s.node.clusterID) := by
    simp [refused.version, refused.cluster]
  have current : ¬ req.term < s.node.currentTerm := by
    have above := refused.above
    omega
  have stepped : (becomeFollower req.term "").run plan [] s =
      (some (.ok ()), [.setTermAndVote], s.raiseTo req.term) := by
    simp [becomeFollower, bind, Proc.get, refused.above, writeStore, Proc.write, Proc.perform,
      refused.raised, updateNode, Proc.modify, pure, Local.raiseTo]
  have cast : (handleRequestVote req).run plan [] s =
      (castVote req ⟨protocolVersion, s.node.id, s.node.currentTerm, false⟩).run plan
        [.setTermAndVote] (s.raiseTo req.term) := by
    simp only [handleRequestVote, bind, Proc.get, if_neg known, if_neg current,
      if_pos refused.above, stepped]
  obtain ⟨free, _, logs⟩ := raiseTo_facts s req.term
  rw [cast]
  cases upToDate : s.node.candidateLogUpToDate req.lastLogTerm req.lastLogIndex with
  | false => exact ⟨_, _, castVote_behind req _ (by rw [logs, upToDate]), rfl⟩
  | true =>
      have failed := refused.denied.resolve_left (by simp [upToDate])
      exact ⟨_, _, castVote_unwritten req _ free (by rw [logs, upToDate]) failed, rfl⟩

theorem handleRequestVote_kept :
    (handleRequestVote req).wp plan
      (fun resp _ after => resp.voteGranted = false → RefusedAbove plan s req ∨ SameTimer s after)
      (fun _ => True) [] s := by
  unfold handleRequestVote
  rw [Proc.wp_bind, Proc.wp_get]
  dsimp only
  by_cases foreign : req.protocolVersion ≠ protocolVersion ∨ req.clusterID ≠ s.node.clusterID
  · rw [if_pos foreign]
    exact fun _ => Or.inr ⟨rfl, rfl⟩
  rw [if_neg foreign]
  rw [not_or, not_not, not_not] at foreign
  by_cases stale : req.term < s.node.currentTerm
  · rw [if_pos stale]
    exact fun _ => Or.inr ⟨rfl, rfl⟩
  rw [if_neg stale]
  by_cases above : req.term > s.node.currentTerm
  · rw [if_pos above, becomeFollower, Proc.wp_bind, Proc.wp_bind, Proc.wp_get, if_pos above,
      Proc.wp_bind]
    apply Proc.wp_write
    · intro raised
      obtain ⟨free, _, logs⟩ := raiseTo_facts s req.term
      apply Proc.wp_mono _ _ _ _ _ _ _ _ (castVote_refused req _ (s.raiseTo req.term))
      · intro resp _ after refused denied
        have reason := (refused denied).2 free
        rw [logs] at reason
        exact Or.inl ⟨foreign.1, foreign.2, above, raised, reason⟩
      · exact fun _ _ => trivial
    · exact fun _ _ => Or.inr ⟨rfl, rfl⟩
    · exact fun _ => trivial
  · rw [if_neg above]
    apply Proc.wp_mono _ _ _ _ _ _ _ _ (castVote_refused req _ s)
    · intro resp _ after refused denied
      rw [(refused denied).1]
      exact Or.inr ⟨rfl, rfl⟩
    · exact fun _ _ => trivial

/-- Refusing a vote leaves the timer alone exactly if the request does not raise the
term on the way. -/
theorem refusedVote_keeps_timer_iff (plan : Plan) (s : Local σ ρ)
    (req : RequestVoteRequest) :
    (∀ resp made after, (handleRequestVote req).run plan [] s = (some resp, made, after) →
      resp.voteGranted = false → SameTimer s after) ↔ ¬ RefusedAbove plan s req := by
  constructor
  · intro keeps refused
    obtain ⟨resp, made, run, denied⟩ := handleRequestVote_above s req refused
    exact (raiseTo_facts s req.term).2.1 (keeps resp made _ run denied)
  · intro other resp made after run denied
    have kept : (handleRequestVote req).wp plan _ _ [] s := handleRequestVote_kept s req
    rw [Proc.wp, run] at kept
    exact (kept denied).resolve_left other

end Requests

def waitingFollower : Local Unit Unit where
  node := { (Config.blank ⟨"a", "trio", ["a", "b", "c"]⟩) with
    currentTerm := 1
    lastLogIndex := 2
    lastLogTerm := 1
    electionCh := some 0
    timers := 1 }
  store := { Store.migrated () with
    currentTerm := 1
    log := Bucket.ofList [logSentinel, ⟨1, 1, .noop, []⟩, ⟨2, 1, .command, [5]⟩] }
  calls := []
  proposals := []
  outcomes := []

/-- A partitioned node with an empty log asks in term 2. -/
def strayRequest : RequestVoteRequest := ⟨protocolVersion, "trio", "c", 2, "c", 0, 0⟩

theorem refusedVote_rearms :
    ∃ resp made after,
      (handleRequestVote strayRequest).run Plan.smooth [] waitingFollower =
        (some resp, made, after) ∧
      waitingFollower.node.role = .follower ∧ resp.voteGranted = false ∧
      waitingFollower.node.electionCh = some 0 ∧ after.node.electionCh = some 1 :=
  ⟨_, _, _, rfl, rfl, rfl, rfl, rfl⟩

end QuorumLimiter
