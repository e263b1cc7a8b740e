import QuorumLimiter.Raft.Merging

/-!
Every handler is a path of moves. Each lemma also says what the handler returns
in terms of the state it ends in, which is all that a caller needs.
-/

namespace QuorumLimiter

open Relation

variable {σ ρ α β : Type} {apply : Option (ApplyFunc σ ρ)} {plan : Plan} {inp : Input}

section Rules

variable {origin s : Local σ ρ} {calls : List StoreOp}

theorem crashed_refl (s : Local σ ρ) : Crashed apply plan inp s s :=
  ⟨s, ReflTransGen.refl, sameOutside_refl s⟩

theorem crashed_of_moves (path : Moves apply plan inp origin s) :
    Crashed apply plan inp origin s :=
  ⟨s, path, sameOutside_refl s⟩

theorem traced_rebase {middle : Local σ ρ} {handler : Handler σ ρ α}
    {post : α → Local σ ρ → Prop} (path : Moves apply plan inp origin middle)
    (traced : Traced apply plan inp middle handler post calls s) :
    Traced apply plan inp origin handler post calls s := by
  apply Proc.wp_mono plan calls s handler _ _ _ _ traced
  · intro value _ after facts
    exact ⟨path.trans facts.1, facts.2⟩
  · rintro after ⟨reached, later, same⟩
    exact ⟨reached, path.trans later, same⟩

theorem traced_mono {handler : Handler σ ρ α} {strong weak : α → Local σ ρ → Prop}
    (traced : Traced apply plan inp origin handler strong calls s)
    (weaken : ∀ value after, strong value after → weak value after) :
    Traced apply plan inp origin handler weak calls s := by
  apply Proc.wp_mono plan calls s handler _ _ _ _ traced
  · exact fun value _ after facts => ⟨facts.1, weaken value after facts.2⟩
  · exact fun _ facts => facts

theorem traced_pure {post : α → Local σ ρ → Prop} {value : α}
    (path : Moves apply plan inp origin s) (holds : post value s) :
    Traced apply plan inp origin (pure value) post calls s := ⟨path, holds⟩

theorem traced_bind {first : Handler σ ρ α} {next : α → Handler σ ρ β}
    {middle : α → Local σ ρ → Prop} {post : β → Local σ ρ → Prop}
    (begun : Traced apply plan inp origin first middle calls s)
    (rest : ∀ value calls after, middle value after →
      Traced apply plan inp after (next value) post calls after) :
    Traced apply plan inp origin (first >>= next) post calls s := by
  rw [Traced, Proc.wp_bind]
  apply Proc.wp_mono plan calls s first _ _ _ _ begun
  · intro value calls after facts
    exact traced_rebase facts.1 (rest value calls after facts.2)
  · exact fun _ facts => facts

theorem traced_get {next : Local σ ρ → Handler σ ρ β} {post : β → Local σ ρ → Prop}
    (rest : Traced apply plan inp origin (next s) post calls s) :
    Traced apply plan inp origin (Proc.get >>= next) post calls s := by
  rw [Traced, Proc.wp_bind, Proc.wp_get]
  exact rest

theorem traced_modify {update : Local σ ρ → Local σ ρ} {next : Unit → Handler σ ρ β}
    {post : β → Local σ ρ → Prop}
    (rest : Traced apply plan inp origin (next ()) post calls (update s)) :
    Traced apply plan inp origin (Proc.modify update >>= next) post calls s := by
  rw [Traced, Proc.wp_bind, Proc.wp_modify]
  exact rest

theorem traced_update {update : Node → Node} {next : Unit → Handler σ ρ β}
    {post : β → Local σ ρ → Prop}
    (rest : Traced apply plan inp origin (next ()) post calls (s.onNode update)) :
    Traced apply plan inp origin (updateNode update >>= next) post calls s :=
  traced_modify rest

theorem traced_read {op : StoreOp} {look : Store σ → α} {next : Except CallError α → Handler σ ρ β}
    {post : β → Local σ ρ → Prop} (path : Moves apply plan inp origin s)
    (passed : Traced apply plan inp origin (next (.ok (look s.store))) post (op :: calls) s)
    (failed : plan (op :: calls) = .fail →
      Traced apply plan inp origin (next (.error .failed)) post (op :: calls) s) :
    Traced apply plan inp origin (readStore op look >>= next) post calls s := by
  rw [Traced, Proc.wp_bind]
  exact Proc.wp_read plan _ calls s op _ _ (fun _ => passed) failed
    (fun _ => crashed_of_moves path)

theorem traced_write {op : StoreOp} {update : Store σ → Store σ}
    {next : Except CallError Unit → Handler σ ρ β} {post : β → Local σ ρ → Prop}
    (crash : Crashed apply plan inp origin s)
    (passed : Traced apply plan inp origin (next (.ok ())) post (op :: calls) (s.onStore update))
    (failed : plan (op :: calls) = .fail →
      Traced apply plan inp origin (next (.error .failed)) post (op :: calls) s) :
    Traced apply plan inp origin (writeStore op update >>= next) post calls s := by
  rw [Traced, Proc.wp_bind]
  exact Proc.wp_write plan _ calls s op _ _ (fun _ => passed) failed (fun _ => crash)

theorem traced_assoc {γ : Type} {first : Handler σ ρ α} {next : α → Handler σ ρ β}
    {last : β → Handler σ ρ γ} {post : γ → Local σ ρ → Prop}
    (flat : Traced apply plan inp origin (first >>= fun value => next value >>= last) post calls s) :
    Traced apply plan inp origin ((first >>= next) >>= last) post calls s := by
  simp only [Traced, Proc.wp_bind] at flat ⊢
  apply Proc.wp_mono plan calls s first _ _ _ _ flat
  · exact fun value calls after facts => (Proc.wp_bind ..).mp facts
  · exact fun _ facts => facts

end Rules

section Elections

variable {s : Local σ ρ} {calls : List StoreOp}

theorem traced_becomeFollower (term : Nat) (leaderID : String)
    (reached : s.node.currentTerm ≤ term) (told : term = inp.term)
    (named : leaderID ≠ "" →
      ∃ req, inp = .appendRequest req ∧ req.term = term ∧ req.leaderID = leaderID) :
    Traced apply plan inp s (becomeFollower term leaderID) (fun result after =>
      result = .ok () ∧ after = (s.advanceTerm term).follow leaderID ∨
        result = .error .failed ∧ after = s) calls s := by
  have move : Moves apply plan inp s ((s.advanceTerm term).follow leaderID) :=
    ReflTransGen.single (Move.stepDown s term leaderID reached told named)
  apply traced_get
  split
  · rename_i above
    apply traced_write (crashed_refl s)
    · apply traced_update
      apply traced_modify
      have same : (s.advanceTerm term) = (s.onStore (·.setTermAndVote term "")).onNode
          fun n => { n with currentTerm := term, votedFor := "" } := if_pos above
      rw [← same]
      exact traced_pure move (Or.inl ⟨rfl, rfl⟩)
    · exact fun _ => traced_pure ReflTransGen.refl (Or.inr ⟨rfl, rfl⟩)
  · rename_i same
    apply traced_modify
    have kept : s.advanceTerm term = s := if_neg same
    rw [kept] at move ⊢
    exact traced_pure move (Or.inl ⟨rfl, rfl⟩)

theorem traced_timers (update : Node → Node)
    (timer : ∀ n, ∃ electionCh heartbeatCh timers, update n =
      { n with electionCh := electionCh, heartbeatCh := heartbeatCh, timers := timers }) :
    Traced apply plan inp s (updateNode update) (fun _ after => after = s.onNode update) calls s := by
  obtain ⟨electionCh, heartbeatCh, timers, same⟩ := timer s.node
  refine ⟨ReflTransGen.single ?_, rfl⟩
  have move : Move apply plan inp s _ := Move.timers s electionCh heartbeatCh timers
  simpa only [Local.onNode, same] using move

theorem traced_resetElectionTimer :
    Traced apply plan inp s (updateNode Node.resetElectionTimer)
      (fun _ after => after = s.onNode Node.resetElectionTimer) calls s :=
  traced_timers _ fun n => ⟨_, n.heartbeatCh, _, rfl⟩

theorem traced_startElection (due : inp = .timeout s.node.currentTerm)
    (notLeader : s.node.role ≠ .leader) :
    Traced apply plan inp s startElection (fun _ _ => True) calls s := by
  apply traced_assoc
  apply traced_get
  apply traced_assoc
  apply traced_write (crashed_refl s)
  · exact ⟨ReflTransGen.single (Move.stand s due notLeader), trivial⟩
  · exact fun _ => traced_mono traced_resetElectionTimer fun _ _ _ => trivial

theorem traced_onElectionTimeout (due : inp = .timeout s.node.currentTerm) :
    Traced apply plan inp s onElectionTimeout (fun _ _ => True) calls s := by
  apply traced_get
  split
  · exact traced_pure ReflTransGen.refl trivial
  · rename_i notLeader
    exact traced_startElection due notLeader

/-- What an answer to a vote request says about the voter. -/
def VoteAnswer (req : RequestVoteRequest) (resp : RequestVoteResponse) (s : Local σ ρ) : Prop :=
  resp.term = s.node.currentTerm ∧
    (resp.voteGranted = true →
      s.node.currentTerm = req.term ∧ s.node.votedFor = req.candidateID)

theorem traced_persistVote (req : RequestVoteRequest) (asked : inp = .voteRequest req)
    (current : req.term = s.node.currentTerm)
    (free : s.node.votedFor = "" ∨ s.node.votedFor = req.candidateID)
    (upToDate : s.node.candidateLogUpToDate req.lastLogTerm req.lastLogIndex = true) :
    Traced apply plan inp s (persistVote req.candidateID) (fun result after =>
      result = .ok () ∧ after = s.grant req.candidateID ∨
        result = .error .failed ∧ after = s) calls s := by
  apply traced_write (crashed_refl s)
  · apply traced_update
    exact traced_pure (ReflTransGen.single (Move.grant s req asked current free upToDate))
      (Or.inl ⟨rfl, rfl⟩)
  · exact fun _ => traced_pure ReflTransGen.refl (Or.inr ⟨rfl, rfl⟩)

theorem traced_castVote (req : RequestVoteRequest) (resp : RequestVoteResponse)
    (asked : inp = .voteRequest req) (current : req.term = s.node.currentTerm)
    (denied : resp.voteGranted = false) :
    Traced apply plan inp s (castVote req resp) (VoteAnswer req) calls s := by
  have refused : VoteAnswer req { resp with term := s.node.currentTerm } s := by
    refine ⟨rfl, ?_⟩
    simp [denied]
  apply traced_get
  dsimp only
  split
  · rename_i vote
    obtain ⟨free, upToDate⟩ := vote
    have allowed : s.node.votedFor = "" ∨ s.node.votedFor = req.candidateID := by
      by_cases none : s.node.votedFor = ""
      · exact Or.inl none
      · exact Or.inr (not_not.mp fun other => free ⟨none, other⟩)
    apply traced_bind (traced_persistVote req asked current allowed upToDate)
    rintro _ _ _ (⟨rfl, rfl⟩ | ⟨rfl, rfl⟩)
    · apply traced_bind traced_resetElectionTimer
      rintro _ _ _ rfl
      apply traced_pure ReflTransGen.refl
      exact ⟨rfl, fun _ => ⟨current.symm, rfl⟩⟩
    · exact traced_pure ReflTransGen.refl refused
  · exact traced_pure ReflTransGen.refl refused

theorem traced_handleRequestVote (req : RequestVoteRequest) (asked : inp = .voteRequest req) :
    Traced apply plan inp s (handleRequestVote req) (VoteAnswer req) calls s := by
  apply traced_get
  dsimp only
  split
  · exact traced_pure ReflTransGen.refl ⟨rfl, by simp⟩
  · split
    · exact traced_pure ReflTransGen.refl ⟨rfl, by simp⟩
    · rename_i notBelow
      split
      · have reached : s.node.currentTerm ≤ req.term := by omega
        apply traced_bind (traced_becomeFollower req.term "" reached (by rw [asked]; rfl) (by simp))
        rintro _ _ _ (⟨rfl, rfl⟩ | ⟨rfl, rfl⟩)
        · apply traced_castVote req _ asked _ rfl
          rw [follow_currentTerm, advanceTerm_currentTerm s _ reached]
        · exact traced_pure ReflTransGen.refl ⟨rfl, by simp⟩
      · exact traced_castVote req _ asked (by omega) rfl

end Elections

section Replication

variable {s : Local σ ρ} {calls : List StoreOp}

theorem traced_termAt (index : Nat) :
    Traced apply plan inp s (termAt index) (fun term after =>
      after = s ∧ (term = s.store.termBefore index ∨ plan.mayFail .entry)) calls s := by
  unfold termAt
  split
  · rename_i positive
    apply traced_read ReflTransGen.refl
    · cases found : s.store.entry index with
      | none => exact traced_pure ReflTransGen.refl ⟨rfl, Or.inl (by simp [Store.termBefore, found])⟩
      | some entry =>
          exact traced_pure ReflTransGen.refl
            ⟨rfl, Or.inl (by simp [Store.termBefore, found, positive])⟩
    · exact fun failed => traced_pure ReflTransGen.refl ⟨rfl, Or.inr ⟨_, failed⟩⟩
  · rename_i zero
    exact traced_pure ReflTransGen.refl ⟨rfl, Or.inl (by simp [Store.termBefore, zero])⟩

theorem traced_entriesFrom (next last : Nat) :
    Traced apply plan inp s (entriesFrom next last) (fun result after =>
      after = s ∧ (result = .ok (if next ≤ last then s.store.entries next last else []) ∨
        result = .error .failed)) calls s := by
  unfold entriesFrom
  split
  · exact Proc.wp_read plan _ calls s .entries _ _
      (fun _ => ⟨ReflTransGen.refl, rfl, Or.inl rfl⟩)
      (fun _ => ⟨ReflTransGen.refl, rfl, Or.inr rfl⟩) (fun _ => crashed_refl s)
  · exact traced_pure ReflTransGen.refl ⟨rfl, Or.inl rfl⟩

theorem traced_replicateToPeer (peer : String)
    (known : peer ∈ s.node.peers ∨ ∃ term resp, inp = .appendReply peer term resp) :
    Traced apply plan inp s (replicateToPeer peer) (fun _ after => after.node = s.node) calls s := by
  apply traced_get
  dsimp only
  split
  · exact traced_pure ReflTransGen.refl rfl
  · rename_i leader
    apply traced_bind (traced_termAt _)
    rintro prevTerm _ _ ⟨rfl, previous⟩
    apply traced_bind (traced_entriesFrom _ _)
    rintro _ _ _ ⟨rfl, rfl | rfl⟩
    · exact ⟨ReflTransGen.single (Move.append _ peer prevTerm (not_not.mp leader) known previous), rfl⟩
    · exact traced_pure ReflTransGen.refl rfl

theorem traced_replicateEach (peers : List String) (known : ∀ peer ∈ peers, peer ∈ s.node.peers) :
    Traced apply plan inp s (replicateEach peers) (fun _ after => after.node = s.node) calls s := by
  induction peers generalizing s calls with
  | nil => exact traced_pure ReflTransGen.refl rfl
  | cons peer rest ih =>
      apply traced_bind (traced_replicateToPeer peer (Or.inl (known peer (by simp))))
      intro _ _ after same
      apply traced_mono (ih fun other member => ?_)
      · exact fun _ last final => final.trans same
      · rw [same]
        exact known other (by simp [member])

theorem traced_replicateToAll :
    Traced apply plan inp s replicateToAll (fun _ after => after.node = s.node) calls s := by
  apply traced_get
  dsimp only
  split
  · exact traced_pure ReflTransGen.refl rfl
  · exact traced_replicateEach _ fun _ member => member

theorem traced_onHeartbeat : Traced apply plan inp s onHeartbeat (fun _ _ => True) calls s := by
  apply traced_get
  split
  · exact traced_mono (traced_timers _ fun n => ⟨n.electionCh, none, n.timers, rfl⟩)
      fun _ _ _ => trivial
  · apply traced_bind traced_replicateToAll
    intro _ _ after _
    exact traced_mono (traced_timers _ fun n => ⟨n.electionCh, _, _, rfl⟩) fun _ _ _ => trivial

theorem traced_promoteToLeader (candidateID : String) (resp : RequestVoteResponse)
    (answered : inp = .counted candidateID resp) (candidate : s.node.role = .candidate)
    (won : s.node.quorum ≤ s.node.votesGranted) :
    Traced apply plan inp s promoteToLeader (fun _ _ => True) calls s := by
  apply traced_update
  apply traced_rebase (ReflTransGen.single (Move.promote s candidateID resp answered candidate won))
  apply traced_get
  apply traced_write (crashed_refl _)
  · apply traced_update
    apply traced_rebase (ReflTransGen.single (Move.assertLeadership _ rfl))
    exact traced_mono traced_replicateToAll fun _ _ _ => trivial
  · exact fun _ => traced_mono traced_replicateToAll fun _ _ _ => trivial

/-- The answer is a vote for the election the node is running. -/
def CountsVote (term : Nat) (resp : RequestVoteResponse) (err : Bool) (s : Local σ ρ) : Prop :=
  err = false ∧ resp.term ≤ s.node.currentTerm ∧ s.node.role = .candidate ∧
    term = s.node.currentTerm ∧ resp.voteGranted = true

theorem traced_handleVoteResponse_counted (candidateID : String) (term : Nat)
    (resp : RequestVoteResponse) (err : Bool) (answered : inp = .counted candidateID resp)
    (counts : CountsVote term resp err s) :
    Traced apply plan inp s.count (handleVoteResponse term resp err) (fun _ _ => True) calls s := by
  obtain ⟨arrived, current, candidate, same, granted⟩ := counts
  apply traced_get
  dsimp only
  rw [if_neg (by simp [arrived]), if_neg (by omega), if_neg (by simp [candidate, same]),
    if_pos granted]
  apply traced_update
  apply traced_get
  split
  · rename_i won
    exact traced_promoteToLeader candidateID resp answered candidate won
  · exact traced_pure ReflTransGen.refl trivial

theorem traced_handleVoteResponse_ignored (term : Nat) (resp : RequestVoteResponse) (err : Bool)
    (answered : inp = .uncounted resp) (ignored : ¬CountsVote term resp err s) :
    Traced apply plan inp s (handleVoteResponse term resp err) (fun _ _ => True) calls s := by
  apply traced_get
  dsimp only
  split
  · exact traced_pure ReflTransGen.refl trivial
  · split
    · apply traced_bind (traced_becomeFollower resp.term "" (by omega) (by rw [answered]; rfl) (by simp))
      intro _ _ after _
      exact traced_pure ReflTransGen.refl trivial
    · split
      · exact traced_pure ReflTransGen.refl trivial
      · rename_i arrived current running
        rw [not_or, not_not, not_not] at running
        split
        · rename_i granted
          exact absurd ⟨by simpa using arrived, by omega, running.1, running.2, granted⟩ ignored
        · exact traced_pure ReflTransGen.refl trivial

theorem traced_lastIndexLoop (term index : Nat) :
    Traced apply plan inp s (lastIndexLoop term index) (fun found after =>
      after = s ∧ (found = lastIndexIn s.store term index ∨ plan.mayFail .entry)) calls s := by
  induction index generalizing calls with
  | zero => exact traced_pure ReflTransGen.refl ⟨rfl, Or.inl rfl⟩
  | succ index ih =>
      apply traced_read ReflTransGen.refl
      · cases found : s.store.entry (index + 1) with
        | none => exact traced_pure ReflTransGen.refl ⟨rfl, Or.inl (by simp [lastIndexIn, found])⟩
        | some entry =>
            dsimp only
            split
            · rename_i same
              exact traced_pure ReflTransGen.refl
                ⟨rfl, Or.inl (by simp [lastIndexIn, found, same])⟩
            · rename_i other
              simpa [lastIndexIn, found, other] using ih
      · exact fun failed => traced_pure ReflTransGen.refl ⟨rfl, Or.inr ⟨_, failed⟩⟩

theorem traced_conflictNext (resp : AppendEntriesResponse) :
    Traced apply plan inp s (conflictNext resp) (fun next after =>
      after = s ∧ (max 1 next = hintedNext s resp ∨ plan.mayFail .entry)) calls s := by
  unfold conflictNext
  split
  · rename_i short
    exact traced_pure ReflTransGen.refl ⟨rfl, Or.inl (by simp [hintedNext, short])⟩
  · rename_i mismatch
    apply traced_bind (traced_get (traced_lastIndexLoop resp.conflictTerm s.node.lastLogIndex))
    rintro index _ _ ⟨rfl, exact' | failed⟩
    · subst exact'
      split
      · rename_i present
        exact traced_pure ReflTransGen.refl
          ⟨rfl, Or.inl (by simp [hintedNext, mismatch, present])⟩
      · rename_i absent
        exact traced_pure ReflTransGen.refl ⟨rfl, Or.inl (by simp [hintedNext, mismatch, absent])⟩
    · split <;> exact traced_pure ReflTransGen.refl ⟨rfl, Or.inr failed⟩

theorem traced_backupNextIndex (peer : String) (term : Nat) (resp : AppendEntriesResponse)
    (answered : inp = .appendReply peer term resp) (leader : s.node.role = .leader)
    (current : term = s.node.currentTerm) (rejected : resp.success = false) :
    Traced apply plan inp s (backupNextIndex peer resp) (fun _ _ => True) calls s := by
  apply traced_bind (traced_conflictNext resp)
  rintro next _ _ ⟨rfl, hinted⟩
  refine ⟨ReflTransGen.single (Move.backup _ peer term resp _ answered leader current rejected ?_),
    trivial⟩
  refine hinted.imp (fun same => ?_) id
  rw [← same]
  split <;> omega

def SameLog (s t : Local σ ρ) : Prop :=
  t.node.currentTerm = s.node.currentTerm ∧ t.node.role = s.node.role ∧ t.store.log = s.store.log

theorem sameLog_trans {first second third : Local σ ρ} (left : SameLog first second)
    (right : SameLog second third) : SameLog first third :=
  ⟨right.1.trans left.1, right.2.1.trans left.2.1, right.2.2.trans left.2.2⟩

theorem applyStep_facts {index term : Nat} {entry : LogEntry} {result : Option ρ}
    {after : Local σ ρ} (applied : applyStep apply index term entry s = .ok (result, after)) :
    ∃ lastApplied app, after = s.onStore fun store =>
      { store with lastApplied := lastApplied, app := app } := by
  unfold applyStep at applied
  split at applied
  · cases applied
    exact ⟨index, s.store.app, rfl⟩
  · unfold applyTx at applied
    split at applied
    · contradiction
    · cases applied
      exact ⟨_, _, rfl⟩

theorem sameLog_applied {index term : Nat} {entry : LogEntry} {result : Option ρ}
    {after : Local σ ρ} (applied : applyStep apply index term entry s = .ok (result, after)) :
    SameLog s (after.deliver index result) := by
  obtain ⟨lastApplied, app, rfl⟩ := applyStep_facts applied
  unfold Local.deliver
  split <;> exact ⟨rfl, rfl, rfl⟩

theorem deliver_progress (index : Nat) (result : Option ρ) :
    (s.deliver index result).node.lastApplied = index ∧
      (s.deliver index result).node.commitIndex = s.node.commitIndex := by
  unfold Local.deliver
  split <;> exact ⟨rfl, rfl⟩

theorem traced_applyEntry {origin : Local σ ρ} (index term : Nat) (entry : LogEntry)
    {next : Except CallError (Option ρ) → Handler σ ρ β} {post : β → Local σ ρ → Prop}
    (path : Moves apply plan inp origin s)
    (passed : ∀ calls result after, applyStep apply index term entry s = .ok (result, after) →
      Traced apply plan inp origin (next (.ok result)) post calls after)
    (failed : ∀ calls, Traced apply plan inp origin (next (.error .failed)) post calls s) :
    Traced apply plan inp origin (applyEntry apply index term entry >>= next) post calls s := by
  unfold applyEntry
  cases apply with
  | none =>
      apply traced_assoc
      apply traced_write (crashed_of_moves path)
      · exact passed _ none _ rfl
      · exact fun _ => failed _
  | some f =>
      rw [Traced, Proc.wp_bind]
      exact Proc.wp_perform plan _ calls s .apply _ _ (fun _ result after => passed _ result after)
        (fun _ _ => failed _) (fun _ => failed _) (fun _ => crashed_of_moves path)

theorem traced_applyLoop (rounds : Nat)
    (behind : s.node.lastApplied + rounds ≤ s.node.commitIndex) :
    Traced apply plan inp s (applyLoop apply rounds) (fun _ after => SameLog s after) calls s := by
  induction rounds generalizing s calls with
  | zero => exact traced_pure ReflTransGen.refl ⟨rfl, rfl, rfl⟩
  | succ rounds ih =>
      have stop : ∀ calls, Traced apply plan inp s (pure ()) (fun _ after => SameLog s after) calls s :=
        fun _ => traced_pure ReflTransGen.refl ⟨rfl, rfl, rfl⟩
      apply traced_get
      apply traced_read ReflTransGen.refl
      · cases found : s.store.entry (s.node.lastApplied + 1) with
        | none => exact stop _
        | some entry =>
            apply traced_applyEntry _ _ _ ReflTransGen.refl
            · intro calls result after applied
              have move : Move apply plan inp s (after.deliver (s.node.lastApplied + 1) result) :=
                Move.applyNext s after entry result (by omega) found applied
              apply traced_modify
              apply traced_rebase (ReflTransGen.single move)
              apply traced_mono (ih ?_)
              · exact fun _ final same => sameLog_trans (sameLog_applied applied) same
              · obtain ⟨lastApplied, app, rfl⟩ := applyStep_facts applied
                rw [(deliver_progress _ _).1, (deliver_progress _ _).2]
                change s.node.lastApplied + 1 + rounds ≤ s.node.commitIndex
                omega
            · exact stop
      · exact fun _ => stop _

theorem traced_applyCommitted :
    Traced apply plan inp s (applyCommitted apply) (fun _ after => SameLog s after) calls s := by
  apply traced_get
  dsimp only
  by_cases behind : s.node.lastApplied ≤ s.node.commitIndex
  · exact traced_applyLoop _ (by omega)
  · rw [show s.node.commitIndex - s.node.lastApplied = 0 by omega]
    exact traced_pure ReflTransGen.refl ⟨rfl, rfl, rfl⟩

theorem traced_commit {origin : Local σ ρ} (index : Nat) {next : Handler σ ρ β}
    {post : β → Local σ ρ → Prop} (path : Moves apply plan inp origin s)
    (rule : CommitRule inp s index)
    (rest : ∀ calls after, after.node = (s.setCommit index).node → SameLog s after →
      Traced apply plan inp after next post calls after) :
    Traced apply plan inp origin (do
      updateNode fun n => { n with commitIndex := index }
      let _ ← writeStore .setCommitIndex (·.setCommitIndex index)
      next) post calls s := by
  apply traced_update
  refine traced_write ⟨s, path, rfl, rfl, rfl, rfl⟩ ?_ ?_
  · apply traced_rebase (path.tail (Move.commit s index rule))
    exact rest _ _ rfl ⟨rfl, rfl, rfl⟩
  · intro failed
    apply traced_rebase (path.tail (Move.commitUnsaved s index rule ⟨_, failed⟩))
    exact rest _ _ rfl ⟨rfl, rfl, rfl⟩

theorem traced_advanceCommit (leader : s.node.role = .leader) :
    Traced apply plan inp s (advanceCommit apply) (fun _ _ => True) calls s := by
  have stop : ∀ calls, Traced apply plan inp s (pure ()) (fun _ _ => True) calls s :=
    fun _ => traced_pure ReflTransGen.refl trivial
  apply traced_get
  dsimp only
  split
  · exact stop _
  · rename_i above
    apply traced_read ReflTransGen.refl
    · cases found : s.store.entry s.node.majorityIndex with
      | none => exact stop _
      | some entry =>
          dsimp only
          split
          · exact stop _
          · rename_i own
            apply traced_commit s.node.majorityIndex ReflTransGen.refl
              ⟨by omega, Or.inl ⟨leader, rfl, entry, found, not_not.mp own⟩⟩
            intro _ _ _ _
            apply traced_bind traced_applyCommitted
            intro _ _ _ _
            exact traced_mono traced_replicateToAll fun _ _ _ => trivial
    · exact fun _ => stop _

theorem traced_handleAppendResponse (peer : String) (term : Nat) (resp : AppendEntriesResponse)
    (err : Bool) (answered : inp = .appendReply peer term resp) :
    Traced apply plan inp s (handleAppendResponse apply peer term resp err) (fun _ _ => True)
      calls s := by
  apply traced_get
  dsimp only
  split
  · exact traced_pure ReflTransGen.refl trivial
  · split
    · apply traced_bind (traced_becomeFollower resp.term "" (by omega) (by rw [answered]; rfl) (by simp))
      intro _ _ _ _
      exact traced_pure ReflTransGen.refl trivial
    · split
      · exact traced_pure ReflTransGen.refl trivial
      · rename_i running
        rw [not_or, not_not, not_not] at running
        split
        · rename_i success
          apply traced_update
          apply traced_rebase (ReflTransGen.single
            (Move.recordMatch s peer term resp answered running.1 running.2 success))
          apply traced_advanceCommit
          rw [onNode_node, recordMatch]
          split
          · exact running.1
          · exact running.1
        · rename_i rejected
          apply traced_bind (traced_backupNextIndex peer term resp answered running.1 running.2
            (by simpa using rejected))
          intro _ _ _ _
          exact traced_mono (traced_replicateToPeer peer (Or.inr ⟨term, resp, answered⟩))
            fun _ _ _ => trivial

theorem traced_handleAppendResponse_lost (peer : String) (term : Nat)
    (resp : AppendEntriesResponse) :
    Traced apply plan inp s (handleAppendResponse apply peer term resp true) (fun _ _ => True)
      calls s :=
  traced_pure ReflTransGen.refl trivial

end Replication

section Receiving

variable {s : Local σ ρ} {calls : List StoreOp}

theorem traced_reconcileEntries (prevIndex : Nat) (entries : List LogEntry) :
    Traced apply plan inp s (reconcileEntries prevIndex entries) (fun result after =>
      after = s ∧ (result = .ok (reconcile s.store prevIndex entries) ∨ result = .error .failed))
      calls s := by
  induction entries generalizing prevIndex calls with
  | nil => exact traced_pure ReflTransGen.refl ⟨rfl, Or.inl rfl⟩
  | cons first rest ih =>
      apply traced_read ReflTransGen.refl
      · cases found : s.store.entry (prevIndex + 1) with
        | none => exact traced_pure ReflTransGen.refl ⟨rfl, Or.inl (by simp [reconcile, found])⟩
        | some existing =>
            dsimp only
            split
            · rename_i conflict
              exact traced_pure ReflTransGen.refl
                ⟨rfl, Or.inl (by simp [reconcile, found, conflict])⟩
            · rename_i same
              simpa [reconcile, found, not_not.mp same] using ih (prevIndex + 1)
      · exact fun _ => traced_pure ReflTransGen.refl ⟨rfl, Or.inr rfl⟩

theorem traced_firstIndexLoop (term index : Nat) :
    Traced apply plan inp s (firstIndexLoop term index)
      (fun found after => after = s ∧ found ≤ index) calls s := by
  induction index generalizing calls with
  | zero => exact traced_pure ReflTransGen.refl ⟨rfl, Nat.le_refl _⟩
  | succ index ih =>
      cases index with
      | zero => exact traced_pure ReflTransGen.refl ⟨rfl, Nat.le_refl _⟩
      | succ index =>
          have here : ∀ calls, Traced apply plan inp s (pure (index + 2))
              (fun found after => after = s ∧ found ≤ index + 2) calls s :=
            fun _ => traced_pure ReflTransGen.refl ⟨rfl, Nat.le_refl _⟩
          apply traced_read ReflTransGen.refl
          · cases s.store.entry (index + 1) with
            | none => exact here _
            | some entry =>
                dsimp only
                split
                · exact traced_mono ih fun _ _ facts => ⟨facts.1, Nat.le_succ_of_le facts.2⟩
                · exact here _
          · exact fun _ => here _

theorem traced_firstIndexOfTerm (start term : Nat) :
    Traced apply plan inp s (firstIndexOfTerm start term)
      (fun found after => after = s ∧ found ≤ start) calls s := by
  unfold firstIndexOfTerm
  split
  · exact traced_pure ReflTransGen.refl ⟨rfl, Nat.le_refl _⟩
  · exact traced_firstIndexLoop term start

/-- What an answer to an append request says about the receiver. -/
def AppendAnswer (req : AppendEntriesRequest) (resp : AppendEntriesResponse) (s : Local σ ρ) :
    Prop :=
  resp.term = s.node.currentTerm ∧ resp.conflictIndex ≤ req.prevLogIndex ∧
    (resp.success = true →
      HoldsEntries req s ∧ resp.matchIndex = req.prevLogIndex + req.entries.length)

theorem holdsEntries_sameLog {req : AppendEntriesRequest} {after : Local σ ρ}
    (holds : HoldsEntries req s) (same : SameLog s after) : HoldsEntries req after := by
  obtain ⟨term, role, log⟩ := same
  simp only [HoldsEntries, term, role, Store.entry, log]
  exact holds

theorem traced_acceptEntries (req : AppendEntriesRequest) (resp : AppendEntriesResponse)
    (asked : inp = .appendRequest req) (holds : HoldsEntries req s)
    (current : resp.term = s.node.currentTerm) (hint : resp.conflictIndex ≤ req.prevLogIndex) :
    Traced apply plan inp s (acceptEntries apply req resp) (AppendAnswer req) calls s := by
  apply traced_get
  dsimp only
  generalize bounded : (if req.prevLogIndex + req.entries.length < req.leaderCommit then
    req.prevLogIndex + req.entries.length else req.leaderCommit) = newCommit
  have bounds : newCommit ≤ req.leaderCommit ∧
      newCommit ≤ req.prevLogIndex + req.entries.length := by
    split at bounded <;> omega
  split
  · rename_i advance
    apply traced_commit _ ReflTransGen.refl
    · exact ⟨advance.2, Or.inr ⟨req, asked, holds, bounds⟩⟩
    · intro _ middle _ committed
      apply traced_bind traced_applyCommitted
      intro _ _ after applied
      have same : SameLog s after := sameLog_trans committed applied
      apply traced_pure ReflTransGen.refl
      exact ⟨current.trans same.1.symm, hint, fun _ => ⟨holdsEntries_sameLog holds same, rfl⟩⟩
  · exact traced_pure ReflTransGen.refl ⟨current, hint, fun _ => ⟨holds, rfl⟩⟩

theorem traced_refreshLastLog {origin : Local σ ρ} {next : Except CallError Unit → Handler σ ρ β}
    {post : β → Local σ ρ → Prop} (crash : Crashed apply plan inp origin s)
    (passed : ∀ calls, Traced apply plan inp origin (next (.ok ())) post calls s.refresh)
    (failed : ∀ calls, plan.mayTear →
      Traced apply plan inp origin (next (.error .failed)) post calls s) :
    Traced apply plan inp origin (refreshLastLog >>= next) post (.overwriteEntries :: calls) s := by
  -- The reads of `refreshLastLog` fail only under a plan that may tear.
  apply traced_assoc
  rw [Traced, Proc.wp_bind]
  apply Proc.wp_read
  · intro _
    dsimp only
    apply traced_assoc
    rw [Traced, Proc.wp_bind]
    apply Proc.wp_read
    · exact fun _ => passed _
    · exact fun fate => failed _ ⟨calls, Or.inr fate⟩
    · exact fun _ => crash
  · exact fun fate => failed _ ⟨calls, Or.inl fate⟩
  · exact fun _ => crash

theorem holdsEntries_merged (req : AppendEntriesRequest) (truncateFrom : Nat)
    (toAppend : List LogEntry) (current : s.node.currentTerm = req.term)
    (follower : s.node.role = .follower) (held : HoldsPrevious req s)
    (merged : reconcile s.store req.prevLogIndex req.entries = (truncateFrom, toAppend)) :
    HoldsEntries req (s.overwrite truncateFrom toAppend).refresh := by
  refine ⟨current, follower, fun consecutive => ?_⟩
  obtain ⟨below, sent⟩ := merged_holds s.store req.entries req.prevLogIndex truncateFrom toAppend
    consecutive merged
  refine ⟨fun positive => ?_, sent⟩
  obtain ⟨entry, found, term⟩ := held.2 positive
  exact ⟨entry, (below _ (Nat.le_refl _)).trans found, term⟩

theorem traced_mergeEntries (req : AppendEntriesRequest) (resp : AppendEntriesResponse)
    (asked : inp = .appendRequest req) (current : s.node.currentTerm = req.term)
    (follower : s.node.role = .follower) (held : HoldsPrevious req s)
    (answer : resp.term = s.node.currentTerm) (hint : resp.conflictIndex ≤ req.prevLogIndex)
    (pending : resp.success = false) :
    Traced apply plan inp s (mergeEntries apply req resp) (AppendAnswer req) calls s := by
  have refused : AppendAnswer req resp s := ⟨answer, hint, by simp [pending]⟩
  apply traced_bind (traced_reconcileEntries _ _)
  rintro _ calls after ⟨same, rfl | rfl⟩ <;> subst after
  · cases merged : reconcile s.store req.prevLogIndex req.entries with
    | mk truncateFrom toAppend =>
        dsimp only
        split
        · rename_i needed
          have nonempty := reconcile_appends s.store merged needed
          have move : Move apply plan inp s (s.overwrite truncateFrom toAppend).refresh :=
            Move.overwrite s req truncateFrom toAppend asked current follower held merged nonempty
          apply traced_write (crashed_refl s)
          · apply traced_refreshLastLog
            · exact ⟨_, ReflTransGen.single move, rfl, rfl, rfl, rfl⟩
            · intro calls
              apply traced_rebase (ReflTransGen.single move)
              exact traced_acceptEntries req resp asked
                (holdsEntries_merged req truncateFrom toAppend current follower held merged) answer
                hint
            · intro calls torn
              exact traced_pure (ReflTransGen.single (Move.tear s truncateFrom toAppend torn))
                ⟨answer, hint, by simp [pending]⟩
          · exact fun _ => traced_pure ReflTransGen.refl refused
        · rename_i complete
          rw [not_or, not_not] at complete
          have same : toAppend = [] := complete.2
          have kept : truncateFrom = 0 := by omega
          subst same kept
          apply traced_acceptEntries req resp asked _ answer hint
          obtain ⟨_, _, holds⟩ :=
            holdsEntries_merged req 0 [] current follower held merged
          exact ⟨current, follower, holds⟩
  · exact traced_pure ReflTransGen.refl refused

theorem traced_checkPrevious (req : AppendEntriesRequest) (resp : AppendEntriesResponse)
    (asked : inp = .appendRequest req) (current : s.node.currentTerm = req.term)
    (follower : s.node.role = .follower) (hint : resp.conflictIndex ≤ req.prevLogIndex)
    (pending : resp.success = false) :
    Traced apply plan inp s (checkPrevious apply req resp) (AppendAnswer req) calls s := by
  have refuse : ∀ answer : AppendEntriesResponse, answer.term = s.node.currentTerm →
      answer.conflictIndex ≤ req.prevLogIndex → answer.success = false →
      AppendAnswer req answer s :=
    fun answer term hint denied => ⟨term, hint, by simp [denied]⟩
  apply traced_get
  dsimp only
  split
  · rename_i short
    exact traced_pure ReflTransGen.refl (refuse _ rfl short pending)
  · rename_i long
    split
    · rename_i positive
      apply traced_read ReflTransGen.refl
      · cases found : s.store.entry req.prevLogIndex with
        | none =>
            apply traced_bind (traced_firstIndexOfTerm _ _)
            rintro _ _ _ ⟨rfl, bound⟩
            exact traced_pure ReflTransGen.refl (refuse _ rfl bound pending)
        | some entry =>
            dsimp only
            split
            · apply traced_bind (traced_firstIndexOfTerm _ _)
              rintro _ _ _ ⟨rfl, bound⟩
              exact traced_pure ReflTransGen.refl (refuse _ rfl bound pending)
            · rename_i same
              exact traced_mergeEntries req _ asked current follower
                ⟨by omega, fun _ => ⟨entry, found, not_not.mp same⟩⟩ rfl hint pending
      · exact fun _ => traced_pure ReflTransGen.refl (refuse _ rfl hint pending)
    · rename_i zero
      exact traced_mergeEntries req _ asked current follower
        ⟨by omega, fun positive => absurd positive zero⟩ rfl hint pending

theorem traced_handleAppendEntries (req : AppendEntriesRequest)
    (asked : inp = .appendRequest req) :
    Traced apply plan inp s (handleAppendEntries apply req) (AppendAnswer req) calls s := by
  apply traced_get
  dsimp only
  split
  · exact traced_pure ReflTransGen.refl ⟨rfl, Nat.zero_le _, by simp⟩
  · split
    · exact traced_pure ReflTransGen.refl ⟨rfl, Nat.zero_le _, by simp⟩
    · have reached : s.node.currentTerm ≤ req.term := by omega
      apply traced_bind (traced_becomeFollower req.term req.leaderID reached
        (by rw [asked]; rfl) fun _ => ⟨req, asked, rfl, rfl⟩)
      rintro _ _ _ (⟨rfl, rfl⟩ | ⟨rfl, rfl⟩)
      · apply traced_checkPrevious req _ asked _ (follow_role _ _) (Nat.zero_le _) rfl
        rw [follow_currentTerm, advanceTerm_currentTerm s _ reached]
      · exact traced_pure ReflTransGen.refl ⟨rfl, Nat.zero_le _, by simp⟩

end Receiving

section Proposing

variable {s : Local σ ρ} {calls : List StoreOp}

theorem traced_handlePropose (command : List UInt8) (asked : inp = .proposal command) :
    Traced apply plan inp s (handlePropose command) (fun _ _ => True) calls s := by
  apply traced_get
  split
  · exact traced_pure ReflTransGen.refl trivial
  · rename_i leader
    apply traced_write (crashed_refl s)
    · apply traced_modify
      apply traced_rebase (ReflTransGen.single (Move.propose s command asked (not_not.mp leader)))
      apply traced_bind traced_replicateToAll
      intro _ _ _ _
      exact traced_pure ReflTransGen.refl trivial
    · exact fun _ => traced_pure ReflTransGen.refl trivial

theorem traced_deregister (index : Nat) (asked : inp = .deregister index) :
    Traced apply plan inp s (deregister index) (fun _ _ => True) calls s :=
  ⟨ReflTransGen.single (Move.deregister s index asked), trivial⟩

end Proposing

section Recovery

variable {s : Local σ ρ} {calls : List StoreOp}

theorem traced_replayLoop (rounds : Nat) (idle : s.node.waiters = Bucket.empty)
    (behind : s.node.lastApplied + rounds ≤ s.node.commitIndex) :
    Traced apply plan inp s (replayLoop apply rounds) (fun _ _ => True) calls s := by
  induction rounds generalizing s calls with
  | zero => exact traced_pure ReflTransGen.refl trivial
  | succ rounds ih =>
      have stop : ∀ calls, Traced apply plan inp s
          (pure (.error .failed) : Handler σ ρ (Except CallError Unit)) (fun _ _ => True) calls s :=
        fun _ => traced_pure ReflTransGen.refl trivial
      apply traced_get
      apply traced_read ReflTransGen.refl
      · cases found : s.store.entry (s.node.lastApplied + 1) with
        | none => exact stop _
        | some entry =>
            apply traced_applyEntry _ _ _ ReflTransGen.refl
            · intro calls result after applied
              have move : Move apply plan inp s (after.deliver (s.node.lastApplied + 1) result) :=
                Move.applyNext s after entry result (by omega) found applied
              obtain ⟨lastApplied, app, rfl⟩ := applyStep_facts applied
              rw [Local.deliver, onStore_node, idle] at move
              apply traced_update
              apply traced_rebase (ReflTransGen.single move)
              apply ih
              · exact idle
              · change s.node.lastApplied + 1 + rounds ≤ s.node.commitIndex
                omega
            · exact stop
      · exact fun _ => stop _

/-- Some path from the rebuilt node ends with this durable state. -/
def Woken (apply : Option (ApplyFunc σ ρ)) (plan : Plan) (origin s : Local σ ρ) : Prop :=
  ∃ clusterID, Crashed apply plan .other (origin.wake clusterID) s

theorem woken_named (clusterID : String) :
    Woken apply plan s ((s.onStore (·.setClusterID clusterID)).onNode
      fun n => { n with clusterID := clusterID }) :=
  ⟨clusterID, _, ReflTransGen.refl, rfl, rfl, rfl, rfl⟩

theorem woken_refl : Woken apply plan s s :=
  ⟨s.store.clusterID, _, ReflTransGen.refl, rfl, rfl, rfl, rfl⟩

theorem wp_readStore {crashed : Local σ ρ → Prop} {post : β → List StoreOp → Local σ ρ → Prop}
    {op : StoreOp} {look : Store σ → α} {next : Except CallError α → Handler σ ρ β}
    (cut : crashed s)
    (failed : (next (.error .failed)).wp plan post crashed (op :: calls) s)
    (passed : (next (.ok (look s.store))).wp plan post crashed (op :: calls) s) :
    (readStore op look >>= next).wp plan post crashed calls s := by
  rw [Proc.wp_bind]
  exact Proc.wp_read plan _ calls s op _ _ (fun _ => passed) (fun _ => failed) (fun _ => cut)

theorem wp_recoverClusterID {crashed : Local σ ρ → Prop} (cut : crashed s) :
    recoverClusterID.wp plan (fun result _ after =>
      result = .error .failed ∧ after = s ∨ result = .ok () ∧ ∃ clusterID,
        after = (s.onStore (·.setClusterID clusterID)).onNode
          fun n => { n with clusterID := clusterID }) crashed calls s := by
  apply wp_readStore cut
  · exact Or.inl ⟨rfl, rfl⟩
  · simp only [Proc.wp_bind, Proc.wp_get]
    split
    · split
      · exact Or.inl ⟨rfl, rfl⟩
      · apply Proc.wp_write
        · exact fun _ => Or.inr ⟨rfl, s.node.clusterID, rfl⟩
        · exact fun _ => Or.inl ⟨rfl, rfl⟩
        · exact fun _ => cut
    · split
      · exact Or.inl ⟨rfl, rfl⟩
      · exact Or.inr ⟨rfl, s.store.clusterID, rfl⟩

theorem wp_readCheckpoints {crashed : Local σ ρ → Prop} (cut : crashed s) :
    readCheckpoints.wp plan (fun result _ after =>
      result = .error .failed ∧ after = s ∨ result = .ok () ∧
        after = s.onNode (·.restored s.store.currentTerm s.store.votedFor s.store.lastIndex
          (s.store.entry s.store.lastIndex) s.store.commitIndex s.store.lastApplied))
      crashed calls s := by
  refine wp_readStore cut (Or.inl ⟨rfl, rfl⟩) ?_
  refine wp_readStore cut (Or.inl ⟨rfl, rfl⟩) ?_
  refine wp_readStore cut (Or.inl ⟨rfl, rfl⟩) ?_
  refine wp_readStore cut (Or.inl ⟨rfl, rfl⟩) ?_
  refine wp_readStore cut (Or.inl ⟨rfl, rfl⟩) ?_
  refine wp_readStore cut (Or.inl ⟨rfl, rfl⟩) ?_
  exact Or.inr ⟨rfl, rfl⟩

theorem traced_replayCommitted (idle : s.node.waiters = Bucket.empty) :
    Traced apply plan inp s (replayCommitted apply) (fun _ _ => True) calls s := by
  apply traced_get
  dsimp only
  by_cases behind : s.node.lastApplied ≤ s.node.commitIndex
  · exact traced_replayLoop _ idle (by omega)
  · rw [show s.node.commitIndex - s.node.lastApplied = 0 by omega]
    exact traced_pure ReflTransGen.refl trivial

/-- A start either brings the node up along a path of moves from the state its
store records, or stops somewhere along that path. -/
theorem wp_start (idle : s.node.waiters = Bucket.empty) :
    (start apply).wp plan (fun result _ after =>
      Woken apply plan s after ∧
        (result = .ok () → ∃ clusterID, Moves apply plan .other (s.wake clusterID) after))
      (Woken apply plan s) calls s := by
  rw [start, Proc.wp_bind, Proc.wp_get]
  split
  · exact ⟨woken_refl, by simp⟩
  · rw [Proc.wp_bind, recover, Proc.wp_bind]
    apply Proc.wp_mono plan calls s _ _ _ _ _ (wp_recoverClusterID woken_refl) _ fun _ cut => cut
    rintro _ calls _ (⟨rfl, rfl⟩ | ⟨rfl, clusterID, rfl⟩)
    · exact ⟨woken_refl, by simp⟩
    · dsimp only
      rw [Proc.wp_bind]
      apply Proc.wp_mono plan calls _ _ _ _ _ _ (wp_readCheckpoints (woken_named clusterID)) _
        fun _ cut => cut
      rintro _ calls _ (⟨rfl, rfl⟩ | ⟨rfl, rfl⟩)
      · exact ⟨woken_named clusterID, by simp⟩
      · have replayed : Traced apply plan .other (s.wake clusterID) (replayCommitted apply)
            (fun _ _ => True) calls (s.wake clusterID) := traced_replayCommitted idle
        apply Proc.wp_mono plan calls _ _ _ _ _ _ replayed
        · rintro result _ after ⟨path, _⟩
          cases result with
          | error error => exact ⟨⟨clusterID, crashed_of_moves path⟩, by simp⟩
          | ok _ =>
              have armed := path.tail (Move.timers after (some after.node.timers)
                after.node.heartbeatCh (after.node.timers + 1))
              exact ⟨⟨clusterID, crashed_of_moves armed⟩, fun _ => ⟨clusterID, armed⟩⟩
        · exact fun _ cut => ⟨clusterID, cut⟩

end Recovery

end QuorumLimiter
