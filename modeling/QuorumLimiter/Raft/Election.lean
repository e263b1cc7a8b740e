import QuorumLimiter.Raft.Votes

/-!
Election safety: at most one node ever leads in a term, over runs with any
message order, loss and duplication, crashes, and failing store calls.
-/

namespace QuorumLimiter

open Voting Simulation

variable {σ ρ : Type} {c : Cluster σ ρ} {w : World σ ρ} {b : Booth String}
  {counted : String → Finset String} {plan : Plan}

/-- The input completes the candidate's quorum in its term. -/
def Wins (w : World σ ρ) (inp : Input) (leader : String) (term : Nat) : Prop :=
  ∃ node resp, inp = .counted leader resp ∧ (w.members leader).node = some node ∧
    node.role = .candidate ∧ node.quorum ≤ node.votesGranted ∧ node.currentTerm = term

def Elects (wins : String → Nat → Prop) (b after : Booth String) : Prop :=
  ∀ term leader voters, after.elected term = some (leader, voters) →
    b.elected term = some (leader, voters) ∨ wins leader term

theorem elects_none {wins : String → Nat → Prop} {after : Booth String}
    (same : after.elected = b.elected) : Elects wins b after :=
  fun _ _ _ won => Or.inl (same ▸ won)

theorem votes_move {id : String} {node : Node} {inp : Input} {t : Local σ ρ}
    (votes : Votes c w b counted) (up : (w.members id).node = some node)
    (arrived : Arrived w id inp) (move : Move c.apply plan inp (w.view id node) t) :
    ∃ after recounted, Votes c (w.put id t) after recounted ∧ Keeps b after ∧
      Elects (Wins w inp) b after := by
  have calm : Elects (Wins w inp) b b := elects_none rfl
  cases move with
  | stepDown term leaderID reached told named =>
      have hinted := votes_named votes arrived named
      by_cases above : node.currentTerm < term
      · exact ⟨_, _, votes_bump votes up term leaderID above hinted, keeps_bump term, elects_none rfl⟩
      · have same : (w.view id node).advanceTerm term = w.view id node := if_neg above
        have current : node.currentTerm = term := Nat.le_antisymm reached (by omega)
        rw [same]
        exact ⟨_, _, votes_follow votes up leaderID (current ▸ hinted), keeps_refl b, calm⟩
  | stand due notLeader =>
      have valid := votes.nodes id node up
      refine ⟨_, _, votes_stand votes up, keeps_stand votes.sound ?_, elects_none rfl⟩
      rw [votes.term, ← valid.term]
      exact Nat.lt_succ_self _
  | grant req asked current free upToDate =>
      subst asked
      obtain ⟨k, call, found, _, request⟩ := arrived
      have sent := votes.calls call (List.mem_of_getElem? found)
      obtain ⟨term, candidate, standing⟩ := sent.vote req request
      have named : req.candidateID ≠ "" := candidate ▸ c.named _ sent.sender
      by_cases fresh : node.votedFor = ""
      · have standing' : b.ballot req.candidateID node.currentTerm = some req.candidateID := by
          rw [candidate, show node.currentTerm = call.term from current.symm.trans term]
          exact standing
        have valid := votes.nodes id node up
        refine ⟨_, _, votes_grant votes up _ named fresh standing', keeps_cast _ ?_, elects_none rfl⟩
        rw [votes.ballot, ← valid.vote, fresh]
        rfl
      · have again : node.votedFor = req.candidateID := free.resolve_left fresh
        have stored : (w.members id).store.votedFor = req.candidateID :=
          (votes.nodes id node up).vote ▸ again
        refine ⟨_, _, votes_quiet votes up ?_ rfl, keeps_refl b, calm⟩
        exact ⟨rfl, rfl, rfl, rfl, rfl, again.symm, rfl, rfl, rfl, stored.symm⟩
  | promote candidateID resp answered candidate won =>
      obtain ⟨vacant, promoted⟩ := votes_promote votes up candidate won
      have current : b.term id = node.currentTerm := by
        rw [votes.term, (votes.nodes id node up).term]
      refine ⟨_, _, promoted, ⟨fun _ _ _ cast => cast, ?_⟩, ?_⟩
      · intro term winner found
        simp only [Booth.elect]
        rw [Function.update_of_ne, found]
        rintro rfl
        rw [current, vacant] at found
        contradiction
      · subst answered
        obtain rfl : candidateID = id := arrived
        intro term leader voters found
        simp only [Booth.elect] at found
        by_cases same : term = b.term candidateID
        · rw [same, Function.update_self, Option.some.injEq, Prod.mk.injEq] at found
          rw [← found.1]
          exact Or.inr ⟨node, resp, rfl, up, candidate, won, current.symm.trans same.symm⟩
        · rw [Function.update_of_ne same] at found
          exact Or.inl found
  | append peer prevTerm leader known previous =>
      exact ⟨_, _, votes_append votes up arrived peer prevTerm leader known, keeps_refl b, calm⟩
  | applyNext after entry result behind found applied =>
      refine ⟨_, _, votes_quiet votes up (sameBallot_deliver applied) ?_, keeps_refl b, calm⟩
      obtain ⟨_, _, rfl⟩ := applyStep_facts applied
      rw [deliver_calls]
      rfl
  | recordMatch peer term resp answered leader current success =>
      exact ⟨_, _, votes_quiet votes up (sameBallot_recordMatch _ _) rfl, keeps_refl b, calm⟩
  | _ => exact ⟨_, _, votes_quiet votes up (by constructor <;> rfl) rfl, keeps_refl b, calm⟩

theorem votes_turn {inp : Input} {after : World σ ρ} (votes : Votes c w b counted)
    (turn : Turn c plan inp w after) :
    ∃ reached recounted, Votes c after reached recounted ∧ Keeps b reached ∧
      Elects (Wins w inp) b reached := by
  have calm : Elects (Wins w inp) b b := elects_none rfl
  cases turn with
  | move id node s up arrived move => exact votes_move votes up arrived move
  | answerVote k call req resp node sent asked up answer =>
      exact ⟨_, _, votes_answerVote votes sent asked up answer, keeps_refl b, calm⟩
  | answerAppend k call req resp node sent asked up answer =>
      exact ⟨_, _, votes_answer votes k _ (by rintro _ ⟨⟩), keeps_refl b, calm⟩
  | settle k => exact ⟨_, _, votes_settle votes k, keeps_refl b, calm⟩
  | count k call req resp node sent asked answered pending up given counts =>
      exact ⟨_, _, votes_count votes sent asked answered pending up counts, keeps_refl b, calm⟩
  | wake id clusterID member stopped => exact ⟨_, _, votes_wake votes clusterID member, keeps_refl b, calm⟩
  | down id => exact ⟨_, _, votes_down votes id, keeps_refl b, calm⟩
  | proposal k state earned => exact ⟨_, _, votes_proposal votes k state, keeps_refl b, calm⟩

theorem votes_later {allowed : Plan → Prop} {after : World σ ρ} (votes : Votes c w b counted)
    (run : c.Later allowed w after) :
    ∃ reached recounted, Votes c after reached recounted ∧ Keeps b reached := by
  obtain ⟨⟨reached, recounted⟩, holds, kept⟩ := run_answered
    (fun w (state : Booth String × (String → Finset String)) => Votes c w state.1 state.2)
    (fun before after => Keeps before.2.1 after.2.1) (fun _ => keeps_refl _)
    (fun _ _ _ => keeps_trans)
    (by
      rintro w after ⟨b, counted⟩ ⟨plan, inp, _, turn⟩ votes
      obtain ⟨reached, recounted, holds, kept, _⟩ := votes_turn votes turn
      exact ⟨(reached, recounted), holds, kept⟩)
    (later_taken run) (g := (b, counted)) votes
  exact ⟨reached, recounted, holds, kept⟩

theorem votes_leads {id : String} {term : Nat} (votes : Votes c w b counted)
    (leads : w.Leads id term) : ∃ voters, b.elected term = some (id, voters) := by
  obtain ⟨node, up, leader, rfl⟩ := leads
  exact (votes.nodes id node up).leading leader

/-- At most one node ever leads in a term. -/
theorem leader_unique (c : Cluster σ ρ) (w later : World σ ρ)
    (reachable : c.Reachable Plan.any w) (run : c.Later Plan.any w later) (first second : String)
    (term : Nat) (leads : w.Leads first term) (rival : later.Leads second term) :
    first = second := by
  obtain ⟨b, counted, votes, _⟩ := votes_later (votes_init c) reachable
  obtain ⟨after, recounted, laterVotes, kept⟩ := votes_later votes run
  obtain ⟨voters, won⟩ := votes_leads votes leads
  obtain ⟨backers, wonLater⟩ := votes_leads laterVotes rival
  have same := (kept.2 _ _ won).symm.trans wonLater
  simp only [Option.some.injEq, Prod.mk.injEq] at same
  exact same.1

theorem leader_unique_trio : ∃ w later, trio.Reachable Plan.any w ∧ trio.Later Plan.any w later ∧
    w.Leads "a" 1 ∧ later.Leads "a" 1 ∧ ∀ second, later.Leads second 1 → "a" = second := by
  obtain ⟨w, later, reachable, run, before, after⟩ := smoothly_reaches trio
    (show Plan.any Plan.smooth from trivial) electFirst [.deliver 2, .respond 2 1] (·.standing "a")
    (·.standing "a") (by decide +kernel : _ = some (some (.leader, 1)))
    (by decide +kernel : _ = some (some (.leader, 1)))
  have leads := leads_of_standing before
  exact ⟨w, later, reachable, run, leads, leads_of_standing after, fun second rival =>
    leader_unique trio w later reachable run "a" second 1 leads rival⟩

end QuorumLimiter
