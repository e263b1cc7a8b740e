import QuorumLimiter.Raft.Election

/-!
Leader hints. A node that knows a leader of its term names one that was promoted
in that term, whatever store calls failed and whichever requests came late.
-/

namespace QuorumLimiter

open Relation Voting Simulation

variable {σ ρ : Type}

/-- The event hands the candidate the vote that completes its quorum: its handler
enters `promoteToLeader` in the given term. -/
def Promotes (w : World σ ρ) (event : Event) (id : String) (term : Nat) : Prop :=
  ∃ k j call resp node, event = .respond k j ∧ Counting w k call resp node ∧ call.source = id ∧
    node.quorum ≤ node.votesGranted + 1 ∧ node.currentTerm = term

/-- At some moment before `w` the node was promoted in the term. -/
def Cluster.Elected (c : Cluster σ ρ) (allowed : Plan → Prop) (w : World σ ρ) (id : String)
    (term : Nat) : Prop :=
  ∃ plan event before after, c.Reachable allowed before ∧ allowed plan ∧
    c.step plan before event = some after ∧ Promotes before event id term ∧
      c.Later allowed after w

section Turning

variable {c : Cluster σ ρ} {plan : Plan} {w after : World σ ρ} {b : Booth String}
  {counted : String → Finset String}

def Candidacy (w : World σ ρ) (id : String) (term quorum votes : Nat) : Prop :=
  ∀ node, (w.members id).node = some node → node.role = .candidate →
    node.currentTerm = term ∧ node.quorum = quorum ∧ node.votesGranted = votes

theorem candidacy_move {apply : Option (ApplyFunc σ ρ)} {inp : Input} {s t : Local σ ρ}
    {candidateID : String} {resp : RequestVoteResponse} (given : inp = .counted candidateID resp)
    (move : Move apply plan inp s t) (runs : t.node.role = .candidate) :
    s.node.role = .candidate ∧ t.node.currentTerm = s.node.currentTerm ∧
      t.node.quorum = s.node.quorum ∧ t.node.votesGranted = s.node.votesGranted := by
  subst given
  cases move with
  | stepDown term leaderID => simp at runs
  | stand due => cases due
  | promote => cases runs
  | applyNext after entry result _ _ applied =>
      obtain ⟨lastApplied, app, rfl⟩ := applyStep_facts applied
      revert runs
      unfold Local.deliver
      split <;> exact fun runs => ⟨runs, rfl, rfl, rfl⟩
  | recordMatch _ _ _ answered => cases answered
  | _ => exact ⟨runs, rfl, rfl, rfl⟩

theorem candidacy_turn {candidateID : String} {resp : RequestVoteResponse} {id : String}
    {term quorum votes : Nat} (turn : Turn c plan (.counted candidateID resp) w after)
    (holds : Candidacy w id term quorum votes) : Candidacy after id term quorum votes := by
  intro node up runs
  cases turn with
  | move other here s running arrived move =>
      by_cases self : id = other
      · subst self
        rw [put_member] at up
        cases up
        obtain ⟨before, sameTerm, sameQuorum, sameVotes⟩ := candidacy_move rfl move runs
        obtain ⟨current, needed, granted⟩ := holds here running before
        exact ⟨sameTerm.trans current, sameQuorum.trans needed, sameVotes.trans granted⟩
      · rw [put_member_ne w other s id self] at up
        exact holds node up runs
  | count k call req resp here sent asked answered pending running given => cases given
  | wake other clusterID =>
      by_cases self : id = other
      · subst other
        rw [put_member] at up
        cases up
        cases runs
      · rw [put_member_ne w other _ id self] at up
        exact holds node up runs
  | down other =>
      by_cases self : id = other
      · subst other
        simp [World.down] at up
      · simp only [World.down, Function.update_of_ne self] at up
        exact holds node up runs
  | _ => exact holds node up runs

theorem votes_turns {inp : Input} {wins : String → Nat → Prop} (votes : Votes c w b counted)
    (turns : Turns c plan inp w after)
    (won : ∀ reached leader term, Turns c plan inp w reached → Wins reached inp leader term →
      wins leader term) :
    ∃ last recounted, Votes c after last recounted ∧ Keeps b last ∧ Elects wins b last := by
  induction turns with
  | refl => exact ⟨b, counted, votes, keeps_refl b, elects_none rfl⟩
  | tail path turn ih =>
      obtain ⟨middle, recounted, holds, kept, elects⟩ := ih
      obtain ⟨last, again, held, more, added⟩ := votes_turn holds turn
      refine ⟨last, again, held, keeps_trans kept more, ?_⟩
      intro term leader voters found
      rcases added term leader voters found with before | fresh
      · exact elects term leader voters before
      · exact Or.inr (won _ leader term path fresh)

theorem wins_counted {candidateID leader : String} {resp : RequestVoteResponse}
    {term quorum votes reached : Nat} (holds : Candidacy w candidateID term quorum votes)
    (wins : Wins w (.counted candidateID resp) leader reached) :
    candidateID = leader ∧ quorum ≤ votes ∧ term = reached := by
  obtain ⟨node, _, ⟨⟩, up, runs, enough, rfl⟩ := wins
  obtain ⟨current, needed, granted⟩ := holds node up runs
  exact ⟨rfl, by omega, current.symm⟩

theorem votes_event {event : Event} (votes : Votes c w b counted)
    (stepped : c.step plan w event = some after) :
    ∃ last recounted, Votes c after last recounted ∧ Keeps b last ∧
      Elects (Promotes w event) b last := by
  cases step_turns stepped with
  | plain inp plain turns =>
      apply votes_turns votes turns
      rintro reached leader term _ ⟨_, _, rfl, _⟩
      exact absurd plain id
  | counted k j call resp node same counting turns =>
      obtain ⟨req, asked⟩ := counting.asked
      have counts := votes_count votes counting.sent asked counting.answered counting.pending
        counting.up counting.counts
      apply votes_turns counts turns
      intro reached leader term path wins
      have begun : Candidacy (w.count k call node) call.source node.currentTerm node.quorum
          (node.votesGranted + 1) := by
        intro other up _
        rw [World.count, put_member] at up
        cases up
        exact ⟨rfl, rfl, rfl⟩
      have holds := run_invariant
        (Candidacy · call.source node.currentTerm node.quorum (node.votesGranted + 1))
        (fun _ _ turn => candidacy_turn turn) path begun
      obtain ⟨source, enough, current⟩ := wins_counted holds wins
      exact ⟨k, j, call, resp, node, same, counting, source, enough, current⟩
  | restarted id clusterID _ member _ turns =>
      apply votes_turns (votes_wake votes clusterID member) turns
      rintro reached leader term _ ⟨_, _, ⟨⟩, _⟩

end Turning

section Runs

variable {c : Cluster σ ρ} {allowed : Plan → Prop} {w later : World σ ρ}

theorem elected_later {id : String} {term : Nat} (elected : c.Elected allowed w id term)
    (run : c.Later allowed w later) : c.Elected allowed later id term := by
  obtain ⟨plan, event, before, after, reachable, admitted, stepped, promotes, path⟩ := elected
  exact ⟨plan, event, before, after, reachable, admitted, stepped, promotes, path.trans run⟩

theorem votes_elected (reachable : c.Reachable allowed w) :
    ∃ b counted, Votes c w b counted ∧ ∀ term leader voters,
      b.elected term = some (leader, voters) → c.Elected allowed w leader term := by
  -- Whom the booth has elected was promoted on the way.
  induction reachable with
  | refl => exact ⟨_, _, votes_init c, by rintro term leader voters ⟨⟩⟩
  | tail path next ih =>
      obtain ⟨b, counted, votes, elected⟩ := ih
      obtain ⟨plan, event, admitted, stepped⟩ := id next
      obtain ⟨last, recounted, holds, _, elects⟩ := votes_event votes stepped
      refine ⟨last, recounted, holds, ?_⟩
      intro term leader voters won
      rcases elects term leader voters won with before | promotes
      · exact elected_later (elected term leader voters before) (ReflTransGen.single next)
      · exact ⟨plan, event, _, _, path, admitted, stepped, promotes, ReflTransGen.refl⟩

end Runs

/-- A node that names a leader names one that was promoted in the node's term, and
so all nodes of a term that name a leader name the same. -/
theorem leader_hint_sound (c : Cluster σ ρ) (w : World σ ρ) (reachable : c.Reachable Plan.any w)
    (id : String) (node : Node) (up : (w.members id).node = some node)
    (hint : node.leaderID ≠ "") :
    c.Elected Plan.any w node.leaderID node.currentTerm ∧
      ∀ other peer, (w.members other).node = some peer → peer.leaderID ≠ "" →
        peer.currentTerm = node.currentTerm → peer.leaderID = node.leaderID := by
  obtain ⟨b, counted, votes, elected⟩ := votes_elected reachable
  obtain ⟨voters, won⟩ := (votes.nodes id node up).hinted hint
  refine ⟨elected _ _ _ won, ?_⟩
  intro other peer running named same
  obtain ⟨backers, rival⟩ := (votes.nodes other peer running).hinted named
  rw [same, won, Option.some.injEq, Prod.mk.injEq] at rival
  exact rival.1.symm

theorem leader_hint_sound_trio : ∃ w node, trio.Reachable Plan.any w ∧
    (w.members "b").node = some node ∧ node.leaderID = "a" ∧
    trio.Elected Plan.any w node.leaderID node.currentTerm ∧
    ∀ other peer, (w.members other).node = some peer → peer.leaderID ≠ "" →
      peer.currentTerm = node.currentTerm → peer.leaderID = node.leaderID := by
  obtain ⟨_, w, reachable, run, _, after⟩ := smoothly_reaches trio
    (show Plan.any Plan.smooth from trivial) electFirst [.deliver 2] (·.standing "a")
    (fun w => (w.members "b").node.map (·.leaderID))
    (by decide +kernel : _ = some (some (.leader, 1))) (by decide +kernel : _ = some (some "a"))
  obtain ⟨node, up, hint⟩ := Option.map_eq_some_iff.mp after
  exact ⟨w, node, reachable.trans run, up, hint, leader_hint_sound trio w (reachable.trans run) "b"
    node up (by rw [hint]; decide)⟩

end QuorumLimiter
