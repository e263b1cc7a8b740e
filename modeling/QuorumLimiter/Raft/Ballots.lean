import Mathlib.Algebra.GroupWithZero.Nat
import QuorumLimiter.Lib.Voting
import QuorumLimiter.Raft.Process

/-!
A node keeps its term and its vote in the store before it acts on them, so that
it backs one candidate a term whatever requests, faults and crashes it meets.
-/

namespace QuorumLimiter

open Relation Voting

variable {σ ρ : Type}

def Store.register (store : Store σ) : Register String :=
  ⟨store.currentTerm, namedVote store.votedFor⟩

/-- The node acts on the term and vote it has stored, as a candidate for itself. -/
structure Sworn (cfg : Config) (node : Node) (store : Store σ) : Prop where
  identity : node.id = cfg.nodeID
  named : cfg.nodeID ≠ ""
  term : node.currentTerm = store.currentTerm
  vote : node.votedFor = store.votedFor
  running : node.role = .candidate → store.votedFor = cfg.nodeID

section Moves

variable {cfg : Config} {apply : Option (ApplyFunc σ ρ)} {plan : Plan} {inp : Input}
  {s t : Local σ ρ}

/-- The new state is as good as the old one, and its register is no step back. -/
def Upholds (cfg : Config) (s t : Local σ ρ) : Prop :=
  Sworn cfg t.node t.store ∧ s.store.register.Advances t.store.register

theorem upholds_same (sworn : Sworn cfg s.node s.store) (identity : t.node.id = s.node.id)
    (role : t.node.role = .candidate → s.node.role = .candidate)
    (term : t.node.currentTerm = s.node.currentTerm) (vote : t.node.votedFor = s.node.votedFor)
    (stored : t.store.currentTerm = s.store.currentTerm ∧ t.store.votedFor = s.store.votedFor) :
    Upholds cfg s t := by
  refine ⟨⟨identity.trans sworn.identity, sworn.named, ?_, ?_, ?_⟩, ?_⟩
  · rw [term, stored.1, sworn.term]
  · rw [vote, stored.2, sworn.vote]
  · rw [stored.2]
    exact fun candidate => sworn.running (role candidate)
  · rw [Store.register, Store.register, stored.1, stored.2]
    exact advances_refl _

theorem upholds_grant (sworn : Sworn cfg s.node s.store) (candidateID : String)
    (free : s.node.votedFor = "" ∨ s.node.votedFor = candidateID) :
    Upholds cfg s (s.grant candidateID) := by
  rw [sworn.vote] at free
  refine ⟨⟨sworn.identity, sworn.named, sworn.term, rfl, ?_⟩, Or.inr ⟨rfl, ?_⟩⟩
  · intro candidate
    rw [sworn.running candidate] at free
    exact (free.resolve_left sworn.named).symm
  · rcases free with none | same
    · exact Or.inl (if_pos none)
    · exact Or.inr (congrArg namedVote same)

theorem upholds_stepDown (sworn : Sworn cfg s.node s.store) (term : Nat) (leaderID : String) :
    Upholds cfg s ((s.advanceTerm term).follow leaderID) := by
  obtain ⟨identity, current, vote, advances⟩ :
      (s.advanceTerm term).node.id = s.node.id ∧
        (s.advanceTerm term).node.currentTerm = (s.advanceTerm term).store.currentTerm ∧
        (s.advanceTerm term).node.votedFor = (s.advanceTerm term).store.votedFor ∧
        s.store.register.Advances (s.advanceTerm term).store.register := by
    unfold Local.advanceTerm
    split
    · rename_i above
      rw [sworn.term] at above
      exact ⟨rfl, rfl, rfl, advances_of_lt above⟩
    · exact ⟨rfl, sworn.term, sworn.vote, advances_refl _⟩
  rw [Upholds, follow_store]
  refine ⟨⟨?_, sworn.named, ?_, ?_, by simp⟩, advances⟩
  · rw [follow_node]
    exact identity.trans sworn.identity
  · rw [follow_currentTerm]
    exact current
  · rw [follow_node]
    exact vote

theorem upholds_move (sworn : Sworn cfg s.node s.store) (move : Move apply plan inp s t) :
    Upholds cfg s t := by
  cases move with
  | stepDown term leaderID => exact upholds_stepDown sworn term leaderID
  | stand due notLeader =>
      refine ⟨⟨sworn.identity, sworn.named, rfl, rfl, fun _ => sworn.identity⟩, advances_of_lt ?_⟩
      change s.store.currentTerm < s.node.currentTerm + 1
      rw [sworn.term]
      omega
  | grant req asked current free upToDate => exact upholds_grant sworn req.candidateID free
  | promote candidateID resp answered candidate won =>
      exact upholds_same sworn rfl (fun _ => candidate) rfl rfl ⟨rfl, rfl⟩
  | applyNext after entry result _ _ applied =>
      obtain ⟨lastApplied, app, rfl⟩ := applyStep_facts applied
      unfold Local.deliver
      split <;> exact upholds_same sworn rfl (fun candidate => candidate) rfl rfl ⟨rfl, rfl⟩
  | recordMatch peer term resp answered leader =>
      simp only [Local.onNode, recordMatch]
      split <;> exact upholds_same sworn rfl (fun candidate => candidate) rfl rfl ⟨rfl, rfl⟩
  | _ => exact upholds_same sworn rfl (fun candidate => candidate) rfl rfl ⟨rfl, rfl⟩

theorem upholds_moves (sworn : Sworn cfg s.node s.store) (path : Moves apply plan inp s t) :
    Upholds cfg s t := by
  induction path with
  | refl => exact ⟨sworn, advances_refl _⟩
  | tail _ move ih =>
      obtain ⟨kept, advanced⟩ := upholds_move ih.1 move
      exact ⟨kept, advances_trans ih.2 advanced⟩

theorem advanceTerm_le (term : Nat) :
    (s.advanceTerm term).node.currentTerm ≤ max s.node.currentTerm term := by
  unfold Local.advanceTerm
  split
  · exact Nat.le_max_right _ _
  · exact Nat.le_max_left _ _

theorem move_term (move : Move apply plan inp s t) :
    t.node.currentTerm ≤ max s.node.currentTerm inp.term := by
  cases move with
  | stepDown term leaderID reached told =>
      rw [follow_currentTerm, ← told]
      exact advanceTerm_le term
  | stand due notLeader =>
      rw [due]
      exact Nat.le_max_right _ _
  | applyNext after entry result _ _ applied =>
      obtain ⟨lastApplied, app, rfl⟩ := applyStep_facts applied
      unfold Local.deliver
      split <;> exact Nat.le_max_left _ _
  | recordMatch peer term resp answered leader =>
      simp only [Local.onNode, recordMatch]
      split <;> exact Nat.le_max_left _ _
  | _ => exact Nat.le_max_left _ _

theorem moves_term (path : Moves apply plan inp s t) :
    t.node.currentTerm ≤ max s.node.currentTerm inp.term := by
  induction path with
  | refl => exact Nat.le_max_left _ _
  | tail _ move ih =>
      have := move_term move
      omega

end Moves

/-- Terms as the wire can carry them for long, and a candidate with a name. -/
def NodeEvent.Sane : NodeEvent → Prop
  | .requestVote req => req.term < 2 ^ 63 ∧ req.candidateID ≠ ""
  | .appendEntries req => req.term < 2 ^ 63
  | .voteResponse _ resp _ => resp.term < 2 ^ 63
  | .appendResponse _ _ resp _ => resp.term < 2 ^ 63
  | _ => True

def timeouts (trace : List (Plan × NodeEvent)) : Nat :=
  trace.countP fun entry => entry.2 = .electionTimeout

namespace Process

/-- The node has answered the candidate with its vote, or is a candidate itself. -/
def Backs (p : Process σ ρ) (term : Nat) (candidateID : String) : Prop :=
  (∃ req resp, (req, resp) ∈ p.votes ∧ resp.voteGranted = true ∧ resp.term = term ∧
    req.candidateID = candidateID) ∨
  ∃ node, p.node = some node ∧ node.role = .candidate ∧ node.currentTerm = term ∧
    node.id = candidateID

def EverBacks (cfg : Config) (apply : Option (ApplyFunc σ ρ)) (p : Process σ ρ)
    (trace : List (Plan × NodeEvent)) (term : Nat) (candidateID : String) : Prop :=
  ∃ early late q, trace = early ++ late ∧ p.steps cfg apply early = some q ∧
    q.Backs term candidateID

end Process

/-- The process after some events, of which `count` were timeouts, having backed `backed`. -/
structure Loyal (cfg : Config) (p : Process σ ρ) (backed : Nat → String → Prop) (count : Nat) :
    Prop where
  sworn : ∀ node, p.node = some node → Sworn cfg node p.store
  pledged : Pledged p.store.register backed
  recorded : ∀ term candidateID, p.Backs term candidateID → backed term candidateID
  bound : p.store.currentTerm < 2 ^ 63 + count

section Runs

variable {cfg : Config} {apply : Option (ApplyFunc σ ρ)} {plan : Plan} {p q : Process σ ρ}
  {event : NodeEvent} {inp : Input} {origin s : Local σ ρ} {backed : Nat → String → Prop}
  {count more : Nat}

theorem loyal_init (cfg : Config) (app : σ) :
    Loyal cfg (Process.init app : Process σ ρ) (fun _ _ => False) 0 := by
  constructor <;> simp [Process.init, Process.Backs, Store.migrated]
  exact ⟨by simp, by simp⟩

theorem loyal_after (loyal : Loyal cfg p backed count)
    (sworn : ∀ node, q.node = some node → Sworn cfg node q.store)
    (advances : p.store.register.Advances q.store.register)
    (votes : ∀ req resp, (req, resp) ∈ q.votes → (req, resp) ∈ p.votes ∨
      (resp.voteGranted = true →
        resp.term = q.store.currentTerm ∧ namedVote q.store.votedFor = some req.candidateID))
    (bound : q.store.currentTerm < 2 ^ 63 + more) :
    Loyal cfg q (fun term candidateID => backed term candidateID ∨ q.Backs term candidateID)
      more := by
  refine ⟨sworn, ?_, fun _ _ backs => Or.inr backs, bound⟩
  apply pledged_extend (pledged_advances loyal.pledged advances)
  rintro term candidateID (before | ⟨req, resp, member, granted, rfl, rfl⟩ | ⟨node, up, runs, rfl, rfl⟩)
  · exact Or.inl before
  · rcases votes req resp member with old | fresh
    · exact Or.inl (loyal.recorded _ _ (Or.inl ⟨req, resp, old, granted, rfl, rfl⟩))
    · exact Or.inr (fresh granted)
  · have holds := sworn node up
    refine Or.inr ⟨holds.term, ?_⟩
    rw [holds.identity, Store.register, holds.running runs]
    exact namedVote_of_ne holds.named

theorem begins_upholds (loyal : Loyal cfg p backed count) (begins : Begins cfg p event inp origin)
    (path : Moves apply plan inp origin s) :
    Sworn cfg s.node s.store ∧ p.store.register.Advances s.store.register := by
  cases begins with
  | here node up => exact upholds_moves (s := p.view node) (loyal.sworn node up) path
  | counted node term resp err up same counts =>
      have sworn := loyal.sworn node up
      exact upholds_moves (s := (p.view node).count)
        ⟨sworn.identity, sworn.named, sworn.term, sworn.vote, sworn.running⟩ path
  | woken clusterID stopped same named =>
      refine upholds_moves (s := (p.view cfg.blank).wake clusterID) ⟨rfl, named, rfl, rfl, ?_⟩ path
      rintro ⟨⟩

theorem begins_bound (loyal : Loyal cfg p backed count) (sane : event.Sane)
    (begins : Begins cfg p event inp origin) (path : Moves apply plan inp origin s) :
    s.store.currentTerm < 2 ^ 63 + (count + if event = .electionTimeout then 1 else 0) := by
  have bound := loyal.bound
  have reached := moves_term path
  rw [(begins_upholds loyal begins path).1.term] at reached
  apply Nat.lt_of_le_of_lt reached
  cases begins with
  | here node up =>
      have current : (p.view node).node.currentTerm = p.store.currentTerm :=
        (loyal.sworn node up).term
      rw [current]
      cases event with
      | electionTimeout =>
          simp only [Process.input, Input.term, (loyal.sworn node up).term, if_true]
          omega
      | requestVote req =>
          have := sane.1
          simp only [Process.input, Input.term]
          omega
      | appendEntries req =>
          simp only [NodeEvent.Sane] at sane
          simp only [Process.input, Input.term]
          omega
      | voteResponse term resp err =>
          simp only [NodeEvent.Sane] at sane
          simp only [Process.input, Input.term]
          omega
      | appendResponse peer term resp err =>
          simp only [NodeEvent.Sane] at sane
          simp only [Process.input, Input.term]
          omega
      | _ =>
          simp only [Process.input, Input.term]
          omega
  | counted node term resp err up same counts =>
      subst same
      have current : (p.view node).count.node.currentTerm = p.store.currentTerm :=
        (loyal.sworn node up).term
      simp only [NodeEvent.Sane] at sane
      rw [current]
      simp only [Input.term]
      omega
  | woken clusterID stopped same named =>
      change max p.store.currentTerm 0 < _
      omega

theorem loyal_step (stepped : p.step cfg apply plan event = some q) (sane : event.Sane)
    (loyal : Loyal cfg p backed count) :
    Loyal cfg q (fun term candidateID => backed term candidateID ∨ q.Backs term candidateID)
        (count + if event = .electionTimeout then 1 else 0) ∧
      p.store.register.Advances q.store.register := by
  have still := Nat.lt_of_lt_of_le loyal.bound (Nat.add_le_add_left
    (Nat.le_add_right count (if event = .electionTimeout then 1 else 0)) _)
  cases step_stepped stepped with
  | served inp origin s begins path =>
      obtain ⟨sworn, advances⟩ := begins_upholds loyal begins path
      refine ⟨loyal_after loyal ?_ advances (fun _ _ old => Or.inl old)
        (begins_bound loyal sane begins path), advances⟩
      rintro node ⟨⟩
      exact sworn
  | answered node req resp s up same path answer =>
      subst same
      have begins : Begins cfg p (.requestVote req) (.voteRequest req) (p.view node) :=
        Begins.here node up
      obtain ⟨sworn, advances⟩ := begins_upholds loyal begins path
      refine ⟨loyal_after loyal ?_ advances ?_ (begins_bound loyal sane begins path), advances⟩
      · rintro node ⟨⟩
        exact sworn
      · intro other given member
        rcases List.mem_append.mp member with old | new
        · exact Or.inl old
        · cases List.mem_singleton.mp new
          refine Or.inr fun granted => ⟨answer.1.trans sworn.term, ?_⟩
          have vote : s.store.votedFor = req.candidateID := sworn.vote ▸ (answer.2 granted).2
          change namedVote s.store.votedFor = _
          rw [vote]
          exact namedVote_of_ne sane.2
  | cut inp origin s begins path =>
      obtain ⟨sworn, advances⟩ := begins_upholds loyal begins path
      exact ⟨loyal_after loyal (by rintro node ⟨⟩) advances (fun _ _ old => Or.inl old)
        (begins_bound loyal sane begins path), advances⟩
  | dropped node k proposal up same found =>
      have sworn := loyal.sworn node up
      refine ⟨loyal_after loyal ?_ (advances_refl _) (fun _ _ old => Or.inl old) still,
        advances_refl _⟩
      rintro _ ⟨⟩
      exact ⟨sworn.identity, sworn.named, sworn.term, sworn.vote, sworn.running⟩
  | caller k state =>
      exact ⟨loyal_after loyal loyal.sworn (advances_refl _) (fun _ _ old => Or.inl old) still,
        advances_refl _⟩
  | crashed =>
      exact ⟨loyal_after loyal (by rintro node ⟨⟩) (advances_refl _) (fun _ _ old => Or.inl old)
        still, advances_refl _⟩

theorem loyal_steps (trace : List (Plan × NodeEvent)) (sane : ∀ entry ∈ trace, entry.2.Sane)
    (ran : p.steps cfg apply trace = some q) (loyal : Loyal cfg p backed count) :
    Loyal cfg q (fun term candidateID => backed term candidateID ∨
        p.EverBacks cfg apply trace term candidateID) (count + timeouts trace) ∧
      p.store.register.Advances q.store.register := by
  induction trace generalizing p backed count with
  | nil =>
      cases ran
      refine ⟨⟨loyal.sworn, ?_, fun _ _ backs => Or.inl (loyal.recorded _ _ backs), loyal.bound⟩,
        advances_refl _⟩
      apply pledged_extend loyal.pledged
      rintro term candidateID (before | ⟨early, late, _, split, run, backs⟩)
      · exact Or.inl before
      · obtain ⟨rfl, rfl⟩ := List.nil_eq_append_iff.mp split
        cases run
        exact Or.inl (loyal.recorded _ _ backs)
  | cons entry rest ih =>
      simp only [Process.steps] at ran
      split at ran
      · rename_i middle stepped
        obtain ⟨next, advanced⟩ := loyal_step stepped (sane entry (by simp)) loyal
        obtain ⟨last, advances⟩ := ih (fun other member => sane other (by simp [member])) ran next
        have counted : timeouts (entry :: rest) =
            (if entry.2 = .electionTimeout then 1 else 0) + timeouts rest := by
          simp [timeouts, List.countP_cons, Nat.add_comm]
        refine ⟨⟨last.sworn, ?_, ?_, ?_⟩, advances_trans advanced advances⟩
        · apply pledged_extend last.pledged
          rintro term candidateID (before | ⟨early, late, reached, split, run, backs⟩)
          · exact Or.inl (Or.inl (Or.inl before))
          · rcases List.cons_eq_append_iff.mp split with ⟨rfl, _⟩ | ⟨begun, rfl, later⟩
            · cases run
              exact Or.inl (Or.inl (Or.inl (loyal.recorded _ _ backs)))
            · simp only [Process.steps, stepped] at run
              exact Or.inl (Or.inr ⟨begun, late, reached, later, run, backs⟩)
        · intro term candidateID backs
          refine Or.inr ⟨entry :: rest, [], q, by simp, ?_, backs⟩
          simp only [Process.steps, stepped]
          exact ran
        · have := last.bound
          omega
      · contradiction

end Runs

/-- After every event the node acts on what it has stored, its term has not gone
back, and it has backed at most one candidate in each term. Terms also stay where
64 bits hold them and the next one. -/
theorem one_vote_per_term (cfg : Config) (apply : Option (ApplyFunc σ ρ)) (app : σ)
    (early late : List (Plan × NodeEvent)) (before after : Process σ ρ)
    (sane : ∀ entry ∈ early ++ late, entry.2.Sane) (few : timeouts (early ++ late) < 2 ^ 63)
    (started : (Process.init app).steps cfg apply early = some before)
    (ended : before.steps cfg apply late = some after) :
    (∀ node, after.node = some node →
      node.currentTerm = after.store.currentTerm ∧ node.votedFor = after.store.votedFor) ∧
    before.store.currentTerm ≤ after.store.currentTerm ∧
    after.store.currentTerm + 1 < 2 ^ 64 ∧
    ∀ term left right,
      (Process.init app).EverBacks cfg apply (early ++ late) term left →
      (Process.init app).EverBacks cfg apply (early ++ late) term right → left = right := by
  have ran : (Process.init app).steps cfg apply (early ++ late) = some after := by
    rw [Process.steps_append, started]
    exact ended
  have begun := (loyal_steps early (fun entry member => sane entry (by simp [member])) started
    (loyal_init cfg app)).1
  have advances := (loyal_steps late (fun entry member => sane entry (by simp [member])) ended
    begun).2
  have loyal := (loyal_steps _ sane ran (loyal_init cfg app)).1
  refine ⟨?_, advances_term advances, ?_, ?_⟩
  · intro node up
    exact ⟨(loyal.sworn node up).term, (loyal.sworn node up).vote⟩
  · have := loyal.bound
    omega
  · intro term left right forLeft forRight
    exact loyal.pledged.single term left right (Or.inr forLeft) (Or.inr forRight)

def firstOfTrio : Config := ⟨"a", "trio", ["a", "b", "c"]⟩

def askedBy (candidateID : String) (term : Nat) : NodeEvent :=
  .requestVote ⟨protocolVersion, "trio", candidateID, term, candidateID, 0, 0⟩

def voteAndCrash : List (Plan × NodeEvent) :=
  [(Plan.smooth, .restart), (Plan.smooth, askedBy "b" 1), (Plan.smooth, .crash)]

def askAndStand : List (Plan × NodeEvent) :=
  [(Plan.smooth, .restart), (Plan.smooth, askedBy "c" 1), (fun _ => .fail, .electionTimeout),
    (Plan.smooth, .electionTimeout), (Plan.smooth, askedBy "c" 2)]

theorem one_vote_per_term_trio :
    ∃ before after : Process Unit Unit,
      (Process.init ()).steps firstOfTrio none voteAndCrash = some before ∧
      before.steps firstOfTrio none askAndStand = some after ∧
      before.Backs 1 "b" ∧ after.Backs 2 "a" ∧
      ∀ term left right,
        (Process.init () : Process Unit Unit).EverBacks firstOfTrio none
          (voteAndCrash ++ askAndStand) term left →
        (Process.init () : Process Unit Unit).EverBacks firstOfTrio none
          (voteAndCrash ++ askAndStand) term right → left = right := by
  refine ⟨_, _, rfl, rfl, Or.inl ⟨_, _, List.mem_singleton.mpr rfl, rfl, rfl, rfl⟩,
    Or.inr ⟨_, rfl, rfl, rfl, rfl⟩, ?_⟩
  refine (one_vote_per_term firstOfTrio none () voteAndCrash askAndStand _ _ ?_ ?_ rfl rfl).2.2.2
  · simp [voteAndCrash, askAndStand, askedBy, NodeEvent.Sane]
  · decide

end QuorumLimiter
