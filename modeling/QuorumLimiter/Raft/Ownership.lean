import QuorumLimiter.Raft.Ballots
import QuorumLimiter.Raft.Waiters

/-!
Who takes a waiter out of the registry. A deregistration names a log index only,
and may reach the event loop after the index has been given to another call. It
is harmless as long as the node is still in the term the call was registered in,
since a leader gives out each index once.
-/

namespace QuorumLimiter

open Relation Voting

variable {σ ρ : Type}

namespace Process

/-- Each waiter the node loses in this event got an outcome on its own channel, or
was deregistered by its own call. -/
def KeepsWaiters (p : Process σ ρ) (event : NodeEvent) (q : Process σ ρ) : Prop :=
  ∀ node after index channel, p.node = some node → q.node = some after →
    node.waiters.get index = some channel →
      after.waiters.get index = some channel ∨
      (∃ outcome, (channel, outcome) ∈ q.outcomes.drop p.outcomes.length) ∨
      event = .deregister channel

/-- A deregistration arrives in the term its call was registered in, or finds no
waiter at its index. -/
def Timely (p : Process σ ρ) : NodeEvent → Prop
  | .deregister k => ∀ node proposal, p.node = some node → p.proposals[k]? = some proposal →
      node.currentTerm = proposal.entry.term ∨ node.waiters.get proposal.entry.index = none
  | _ => True

def Throughout (cfg : Config) (apply : Option (ApplyFunc σ ρ)) (p : Process σ ρ)
    (trace : List (Plan × NodeEvent)) (holds : Process σ ρ → NodeEvent → Process σ ρ → Prop) :
    Prop :=
  ∀ early plan event late before after, trace = early ++ (plan, event) :: late →
    p.steps cfg apply early = some before → before.step cfg apply plan event = some after →
      holds before event after

end Process

/-- Calls are recorded with terms already reached, and no two with one term and index. -/
structure Recorded (proposals : List (Proposal ρ)) (currentTerm : Nat) : Prop where
  reached : ∀ k id entry, registration proposals k = some (id, entry) → entry.term ≤ currentTerm
  apart : ∀ j k id other entry twin, registration proposals j = some (id, entry) →
    registration proposals k = some (other, twin) → entry.term = twin.term →
    entry.index = twin.index → j = k

structure Owned (cfg : Config) (s : Local σ ρ) : Prop where
  sworn : Sworn cfg s.node s.store
  recorded : Recorded s.proposals s.node.currentTerm
  fresh : s.node.role = .candidate → ∀ k id entry,
    registration s.proposals k = some (id, entry) → entry.term < s.node.currentTerm
  tip : s.node.role = .leader → ∀ k id entry, registration s.proposals k = some (id, entry) →
    entry.term = s.node.currentTerm → entry.index ≤ s.node.lastLogIndex
  waiting : ∀ index channel, s.node.waiters.get index = some channel →
    s.node.role = .leader ∧ ∃ id entry, registration s.proposals channel = some (id, entry) ∧
      entry.index = index ∧ entry.term = s.node.currentTerm

/-- How role, term and the end of the log go on together. -/
structure Progress (s t : Local σ ρ) : Prop where
  term : s.node.currentTerm ≤ t.node.currentTerm
  candidate : t.node.role = .candidate →
    s.node.role = .candidate ∧ t.node.currentTerm = s.node.currentTerm ∨
      s.node.currentTerm < t.node.currentTerm
  leader : t.node.role = .leader → t.node.currentTerm = s.node.currentTerm ∧
    (s.node.role = .candidate ∨ s.node.role = .leader ∧ s.node.lastLogIndex ≤ t.node.lastLogIndex)

section Moves

variable {cfg : Config} {apply : Option (ApplyFunc σ ρ)} {plan : Plan} {inp : Input}
  {s t : Local σ ρ}

theorem progress_same (role : t.node.role = s.node.role)
    (term : t.node.currentTerm = s.node.currentTerm)
    (tip : s.node.lastLogIndex ≤ t.node.lastLogIndex) : Progress s t := by
  refine ⟨Nat.le_of_eq term.symm, ?_, ?_⟩
  · exact fun candidate => Or.inl ⟨role ▸ candidate, term⟩
  · exact fun leader => ⟨term, Or.inr ⟨role ▸ leader, tip⟩⟩

theorem progress_move (move : Move apply plan inp s t) : Progress s t := by
  cases move with
  | stepDown term leaderID reached =>
      refine ⟨?_, by simp, by simp⟩
      rw [follow_currentTerm, advanceTerm_currentTerm s term reached]
      exact reached
  | stand due notLeader =>
      refine ⟨Nat.le_succ _, fun _ => Or.inr (Nat.lt_succ_self _), ?_⟩
      rintro ⟨⟩
  | promote candidateID resp answered candidate won =>
      refine ⟨Nat.le_refl _, ?_, fun _ => ⟨rfl, Or.inl candidate⟩⟩
      rintro ⟨⟩
  | assertLeadership leader => exact progress_same rfl rfl (Nat.le_succ _)
  | propose command asked leader => exact progress_same rfl rfl (Nat.le_succ _)
  | overwrite req truncateFrom toAppend asked current follower =>
      have role : (s.overwrite truncateFrom toAppend).refresh.node.role = .follower := follower
      exact ⟨Nat.le_refl _, by simp [role], by simp [role]⟩
  | applyNext after entry result _ _ applied =>
      obtain ⟨lastApplied, app, rfl⟩ := applyStep_facts applied
      unfold Local.deliver
      split <;> exact progress_same rfl rfl (Nat.le_refl _)
  | recordMatch peer term resp answered leader =>
      simp only [Local.onNode, recordMatch]
      split <;> exact progress_same rfl rfl (Nat.le_refl _)
  | _ => exact progress_same rfl rfl (Nat.le_refl _)

theorem owned_progress (owned : Owned cfg s) (progress : Progress s t)
    (sworn : Sworn cfg t.node t.store) (proposals : t.proposals = s.proposals)
    (waiters : ∀ index channel, t.node.waiters.get index = some channel →
      s.node.waiters.get index = some channel)
    (leads : ∀ index channel, t.node.waiters.get index = some channel → s.node.role = .leader →
      t.node.role = .leader ∧ t.node.currentTerm = s.node.currentTerm) : Owned cfg t := by
  refine ⟨sworn, ⟨?_, ?_⟩, ?_, ?_, ?_⟩ <;> rw [proposals]
  · exact fun k id entry known =>
      Nat.le_trans (owned.recorded.reached k id entry known) progress.term
  · exact owned.recorded.apart
  · intro candidate k id entry known
    rcases progress.candidate candidate with ⟨still, same⟩ | later
    · rw [same]
      exact owned.fresh still k id entry known
    · exact Nat.lt_of_le_of_lt (owned.recorded.reached k id entry known) later
  · intro leader k id entry known current
    obtain ⟨same, before⟩ := progress.leader leader
    rw [same] at current
    rcases before with candidate | ⟨leading, longer⟩
    · have := owned.fresh candidate k id entry known
      omega
    · exact Nat.le_trans (owned.tip leading k id entry known current) longer
  · intro index channel waiting
    obtain ⟨leader, id, entry, known, position, current⟩ :=
      owned.waiting index channel (waiters index channel waiting)
    obtain ⟨leading, same⟩ := leads index channel waiting leader
    exact ⟨leading, id, entry, known, position, current.trans same.symm⟩

theorem registration_last (proposals : List (Proposal ρ)) (proposal : Proposal ρ) (k : Nat) :
    registration (proposals ++ [proposal]) k =
      if k = proposals.length then some (proposal.node, proposal.entry)
      else registration proposals k := by
  unfold registration
  split
  · rename_i same
    simp [same]
  · rename_i other
    rcases Nat.lt_or_gt_of_ne other with below | above
    · rw [List.getElem?_append_left below]
    · rw [List.getElem?_eq_none (by simp; omega), List.getElem?_eq_none (by omega)]

theorem owned_registered (owned : Owned cfg s) (sworn : Sworn cfg t.node t.store)
    (command : List UInt8) (leader : s.node.role = .leader) (leading : t.node.role = .leader)
    (term : t.node.currentTerm = s.node.currentTerm)
    (tip : t.node.lastLogIndex = (s.node.commandEntry command).index)
    (proposals : t.proposals = s.proposals ++ [⟨s.node.id, s.node.commandEntry command, .waiting⟩])
    (waiters : t.node.waiters =
      s.node.waiters.put (s.node.commandEntry command).index s.proposals.length) :
    Owned cfg t := by
  -- The new call takes an index that no call of the term has had.
  have newIndex : (s.node.commandEntry command).index = s.node.lastLogIndex + 1 := rfl
  have newTerm : (s.node.commandEntry command).term = s.node.currentTerm := rfl
  have known : ∀ k id entry, registration t.proposals k = some (id, entry) →
      k = s.proposals.length ∧ entry = s.node.commandEntry command ∨
        registration s.proposals k = some (id, entry) := by
    intro k id entry found
    rw [proposals, registration_last] at found
    split at found
    · rename_i last
      exact Or.inl ⟨last, (Prod.mk.inj (Option.some.inj found)).2.symm⟩
    · exact Or.inr found
  refine ⟨sworn, ⟨?_, ?_⟩, ?_, ?_, ?_⟩
  · intro k id entry found
    rw [term]
    rcases known k id entry found with ⟨_, rfl⟩ | old
    · exact Nat.le_of_eq newTerm
    · exact owned.recorded.reached k id entry old
  · intro j k id other entry twin found second sameTerm sameIndex
    rcases known j id entry found with ⟨last, rfl⟩ | old <;>
      rcases known k other twin second with ⟨final, rfl⟩ | older
    · exact last.trans final.symm
    · have := owned.tip leader k other twin older (sameTerm.symm.trans newTerm)
      omega
    · have := owned.tip leader j id entry old (sameTerm.trans newTerm)
      omega
    · exact owned.recorded.apart j k id other entry twin old older sameTerm sameIndex
  · intro candidate
    rw [leading] at candidate
    contradiction
  · intro _ k id entry found current
    rw [tip]
    rcases known k id entry found with ⟨_, rfl⟩ | old
    · exact Nat.le_refl _
    · have := owned.tip leader k id entry old (current.trans term)
      omega
  · intro index channel waiting
    rw [waiters, Bucket.get_put] at waiting
    refine ⟨leading, ?_⟩
    split at waiting
    · rename_i own
      cases waiting
      refine ⟨s.node.id, s.node.commandEntry command, ?_, own.symm, newTerm.trans term.symm⟩
      rw [proposals, registration_last, if_pos rfl]
    · obtain ⟨_, id, entry, found, position, current⟩ := owned.waiting index channel waiting
      refine ⟨id, entry, ?_, position, current.trans term.symm⟩
      rw [proposals]
      exact registration_append _ _ _ _ found

theorem owned_move (owned : Owned cfg s) (move : Move apply plan inp s t) : Owned cfg t := by
  have progress := progress_move move
  have sworn := (upholds_move owned.sworn move).1
  cases move_registry move with
  | kept proposals outcomes waiters leads =>
      exact owned_progress owned progress sworn proposals (by simp [waiters]) fun _ _ _ => leads
  | dropped index asked proposals outcomes waiters leads =>
      refine owned_progress owned progress sworn proposals ?_ fun _ _ _ leader =>
        ⟨leads.1.trans leader, leads.2⟩
      simp +contextual [waiters]
  | failed proposals waiters =>
      exact owned_progress owned progress sworn proposals (by simp [waiters]) (by simp [waiters])
  | registered command asked proposals outcomes waiters stored leads tip =>
      exact owned_registered owned sworn command leads.1 leads.2.1 leads.2.2 tip proposals waiters
  | delivered channel entry result next waiting behind found stepped proposals outcomes waiters
      leads =>
      refine owned_progress owned progress sworn proposals ?_ fun _ _ _ leader =>
        ⟨leads.1.trans leader, leads.2⟩
      simp +contextual [waiters]

/-- The waiter is still there, was handed an outcome since, or was deregistered. -/
def Accounted (inp : Input) (s t : Local σ ρ) (index channel : Nat) : Prop :=
  t.node.waiters.get index = some channel ∨
    (∃ outcome, (channel, outcome) ∈ t.outcomes.drop s.outcomes.length) ∨ inp = .deregister index

theorem move_outcomes (move : Move apply plan inp s t) : s.outcomes <+: t.outcomes := by
  cases move_registry move with
  | kept _ outcomes | dropped _ _ _ outcomes | registered _ _ _ outcomes =>
      exact outcomes ▸ List.prefix_rfl
  | failed _ _ outcomes | delivered _ _ _ _ _ _ _ _ _ outcomes =>
      exact outcomes ▸ List.prefix_append _ _

theorem accounted_move {index channel : Nat} (owned : Owned cfg s) (move : Move apply plan inp s t)
    (waiting : s.node.waiters.get index = some channel) : Accounted inp s t index channel := by
  cases move_registry move with
  | kept proposals outcomes waiters => exact Or.inl (waiters ▸ waiting)
  | dropped other asked proposals outcomes waiters =>
      by_cases own : index = other
      · exact Or.inr (Or.inr (own ▸ asked))
      · left
        rw [waiters, Bucket.get_delete, if_neg own]
        exact waiting
  | failed proposals waiters outcomes =>
      rw [Accounted, outcomes]
      refine Or.inr (Or.inl ⟨.error .notLeader, ?_⟩)
      rw [List.drop_left]
      exact List.mem_map.mpr ⟨_, (Bucket.get_eq_some_iff _ _ _).mp waiting, rfl⟩
  | registered command asked proposals outcomes waiters =>
      left
      obtain ⟨leader, id, entry, found, position, current⟩ := owned.waiting index channel waiting
      have below := owned.tip leader channel id entry found current
      have other : index ≠ (s.node.commandEntry command).index := by
        change index ≠ s.node.lastLogIndex + 1
        omega
      rw [waiters, Bucket.get_put, if_neg other]
      exact waiting
  | delivered own entry result next here behind found stepped proposals outcomes waiters =>
      rw [Accounted, outcomes]
      by_cases same : index = s.node.lastApplied + 1
      · rw [same, here] at waiting
        cases waiting
        exact Or.inr (Or.inl ⟨.ok result, by simp⟩)
      · left
        rw [waiters, Bucket.get_delete, if_neg same]
        exact waiting

theorem moves_outcomes (path : Moves apply plan inp s t) : s.outcomes <+: t.outcomes :=
  Simulation.run_invariant (s.outcomes <+: ·.outcomes)
    (fun _ _ move grows => grows.trans (move_outcomes move)) path List.prefix_rfl

theorem owned_moves (owned : Owned cfg s) (path : Moves apply plan inp s t) : Owned cfg t :=
  Simulation.run_invariant (Owned cfg) (fun _ _ move owned => owned_move owned move) path owned

theorem accounted_moves {index channel : Nat} (owned : Owned cfg s)
    (path : Moves apply plan inp s t) (waiting : s.node.waiters.get index = some channel) :
    Accounted inp s t index channel := by
  induction path with
  | refl => exact Or.inl waiting
  | @tail middle last begun move ih =>
      rcases ih with there | ⟨outcome, member⟩ | asked
      · rcases accounted_move (owned_moves owned begun) move there with
          still | ⟨outcome, member⟩ | asked
        · exact Or.inl still
        · have longer := (moves_outcomes begun).length_le
          exact Or.inr (Or.inl ⟨outcome, List.drop_subset_drop_left _ longer member⟩)
        · exact Or.inr (Or.inr asked)
      · exact Or.inr (Or.inl ⟨outcome, ((move_outcomes move).drop _).subset member⟩)
      · exact Or.inr (Or.inr asked)

end Moves

structure Owning (cfg : Config) (p : Process σ ρ) : Prop where
  up : ∀ node, p.node = some node → Owned cfg (p.view node)
  recorded : Recorded p.proposals p.store.currentTerm

section Runs

variable {cfg : Config} {apply : Option (ApplyFunc σ ρ)} {plan : Plan} {p q : Process σ ρ}
  {event : NodeEvent} {inp : Input} {origin s : Local σ ρ}

theorem recorded_same {proposals others : List (Proposal ρ)} {term : Nat}
    (recorded : Recorded proposals term) (same : registration others = registration proposals) :
    Recorded others term := by
  refine ⟨?_, ?_⟩ <;> rw [same]
  · exact recorded.reached
  · exact recorded.apart

theorem owned_same {proposals : List (Proposal ρ)} (owned : Owned cfg s)
    (same : registration proposals = registration s.proposals) :
    Owned cfg { s with proposals := proposals } := by
  refine ⟨owned.sworn, recorded_same owned.recorded same, ?_, ?_, ?_⟩ <;> dsimp only <;> rw [same]
  · exact owned.fresh
  · exact owned.tip
  · exact owned.waiting

theorem owned_stored (owned : Owned cfg s) : Recorded s.proposals s.store.currentTerm :=
  owned.sworn.term ▸ owned.recorded

theorem registration_stop (proposals : List (Proposal ρ)) :
    registration (proposals.map Proposal.stop) = registration proposals := by
  funext k
  unfold registration
  rw [List.getElem?_map, Option.map_map]
  congr 1
  funext proposal
  simp only [Function.comp_apply, Proposal.stop]
  split <;> rfl

theorem owning_init (cfg : Config) (app : σ) : Owning cfg (Process.init app : Process σ ρ) := by
  refine ⟨?_, ?_, ?_⟩
  · rintro node ⟨⟩
  · rintro k id entry ⟨⟩
  · rintro j k id other entry twin ⟨⟩

theorem owning_put (owned : Owned cfg s) : Owning cfg (p.put s) := by
  refine ⟨?_, owned_stored owned⟩
  rintro node ⟨⟩
  exact owned

theorem owning_down (recorded : Recorded p.proposals p.store.currentTerm) : Owning cfg p.down := by
  refine ⟨?_, recorded_same recorded (registration_stop _)⟩
  rintro node ⟨⟩

theorem owning_setProposal (owning : Owning cfg p) (k : Nat) (state : ProposalState ρ) :
    Owning cfg (p.setProposal k state) := by
  have same := funext (registration_modify p.proposals k · state)
  exact ⟨fun node up => owned_same (owning.up node up) same, recorded_same owning.recorded same⟩

theorem begins_owned (owning : Owning cfg p) (begins : Begins cfg p event inp origin) :
    Owned cfg origin := by
  cases begins with
  | here node up => exact owning.up node up
  | counted node term resp err up same counts =>
      obtain ⟨sworn, recorded, fresh, tip, waiting⟩ := owning.up node up
      exact ⟨⟨sworn.identity, sworn.named, sworn.term, sworn.vote, sworn.running⟩, recorded, fresh,
        tip, waiting⟩
  | woken clusterID stopped same named =>
      refine ⟨⟨rfl, named, rfl, rfl, ?_⟩, owning.recorded, ?_, ?_, ?_⟩
      · rintro ⟨⟩
      · rintro ⟨⟩
      · rintro ⟨⟩
      · rintro index channel ⟨⟩

theorem owned_deregister (owned : Owned cfg s) (index : Nat) :
    Owned cfg (s.onNode fun n => { n with waiters := n.waiters.delete index }) := by
  have move : Move none Plan.smooth (.deregister index) s _ := Move.deregister s index rfl
  exact owned_move owned move

theorem owning_step (owning : Owning cfg p) (stepped : p.step cfg apply plan event = some q) :
    Owning cfg q := by
  cases step_stepped stepped with
  | served inp origin s begins path =>
      exact owning_put (owned_moves (begins_owned owning begins) path)
  | answered node req resp s up same path =>
      have put := owning_put (p := p) (owned_moves (owning.up node up) path)
      exact ⟨put.up, put.recorded⟩
  | cut inp origin s begins path =>
      exact owning_down (owned_stored (owned_moves (begins_owned owning begins) path))
  | dropped node k proposal up same found =>
      exact owning_setProposal (owning_put (owned_deregister (owning.up node up) _)) k _
  | caller k state => exact owning_setProposal owning k state
  | crashed => exact owning_down owning.recorded

theorem owning_steps (trace : List (Plan × NodeEvent)) (owning : Owning cfg p)
    (ran : p.steps cfg apply trace = some q) : Owning cfg q := by
  induction trace generalizing p with
  | nil =>
      cases ran
      exact owning
  | cons entry rest ih =>
      simp only [Process.steps] at ran
      split at ran
      · rename_i middle stepped
        exact ih (owning_step owning stepped) ran
      · contradiction

theorem waiter_own {node : Node} {k channel : Nat} {proposal : Proposal ρ} (owning : Owning cfg p)
    (up : p.node = some node) (found : p.proposals[k]? = some proposal)
    (waiting : node.waiters.get proposal.entry.index = some channel) :
    node.currentTerm = proposal.entry.term ↔ k = channel := by
  -- A waiter found at the index of a call registered in the current term is the call's own.
  have owned := owning.up node up
  obtain ⟨_, id, entry, registered, position, current⟩ := owned.waiting _ channel waiting
  have known : registration p.proposals k = some (proposal.node, proposal.entry) := by
    rw [registration, found]
    rfl
  constructor
  · intro same
    exact owned.recorded.apart k channel _ id _ entry known registered
      (same.symm.trans current.symm) position.symm
  · rintro rfl
    have twin : (proposal.node, proposal.entry) = (id, entry) :=
      Option.some.inj (known.symm.trans registered)
    rw [(Prod.mk.inj twin).2]
    exact current.symm

theorem input_ne_deregister (node : Node) (index : Nat) :
    Process.input node event ≠ .deregister index := by
  cases event <;> simp [Process.input]

theorem begins_waiting {node : Node} {index channel : Nat} (begins : Begins cfg p event inp origin)
    (up : p.node = some node) (waiting : node.waiters.get index = some channel) :
    origin.node.waiters.get index = some channel ∧ origin.outcomes = p.outcomes ∧
      inp ≠ .deregister index := by
  cases begins with
  | here other running =>
      cases running.symm.trans up
      exact ⟨waiting, rfl, input_ne_deregister node index⟩
  | counted other term resp err running same counts =>
      cases running.symm.trans up
      exact ⟨waiting, rfl, by simp⟩
  | woken clusterID stopped => simp [stopped] at up

theorem keepsWaiters_path {node : Node} {index channel : Nat} (owning : Owning cfg p)
    (begins : Begins cfg p event inp origin) (path : Moves apply plan inp origin s)
    (up : p.node = some node) (waiting : node.waiters.get index = some channel) :
    s.node.waiters.get index = some channel ∨
      ∃ outcome, (channel, outcome) ∈ s.outcomes.drop p.outcomes.length := by
  -- A handler's path of moves takes no waiter but by an outcome.
  obtain ⟨there, outcomes, other⟩ := begins_waiting begins up waiting
  rcases accounted_moves (begins_owned owning begins) path there with still | given | asked
  · exact Or.inl still
  · exact Or.inr (outcomes ▸ given)
  · exact absurd asked other

theorem keepsWaiters_other (owning : Owning cfg p) (other : ∀ k, event ≠ .deregister k)
    (stepped : p.step cfg apply plan event = some q) : p.KeepsWaiters event q := by
  intro node after index channel up running waiting
  cases step_stepped stepped with
  | served inp origin s begins path =>
      cases running
      exact (keepsWaiters_path owning begins path up waiting).imp_right Or.inl
  | answered here req resp s running' same path =>
      subst same
      cases running
      have begins : Begins cfg p (.requestVote req) (.voteRequest req) (p.view here) :=
        Begins.here here running'
      exact (keepsWaiters_path owning begins path up waiting).imp_right Or.inl
  | cut => cases running
  | dropped here k proposal running' same => exact absurd same (other k)
  | caller k state =>
      cases up.symm.trans running
      exact Or.inl waiting
  | crashed => cases running

theorem keepsWaiters_deregister {k : Nat} (owning : Owning cfg p)
    (stepped : p.step cfg apply plan (.deregister k) = some q) :
    p.KeepsWaiters (.deregister k) q ↔ p.Timely (.deregister k) := by
  obtain ⟨node, proposal, up, found, rfl⟩ := deregister_eq stepped
  constructor
  · rintro keeps _ _ running known
    cases up.symm.trans running
    cases found.symm.trans known
    cases waiting : node.waiters.get proposal.entry.index with
    | none => exact Or.inr rfl
    | some channel =>
        left
        rw [waiter_own owning up found waiting]
        rcases keeps node _ _ channel up rfl waiting with there | ⟨outcome, member⟩ | same
        · simp at there
        · change (channel, outcome) ∈ p.outcomes.drop p.outcomes.length at member
          rw [List.drop_length] at member
          cases member
        · exact NodeEvent.deregister.inj same
  · rintro timely _ _ index channel running ⟨⟩ waiting
    cases up.symm.trans running
    by_cases own : index = proposal.entry.index
    · subst own
      have current := (timely node proposal up found).resolve_right (by simp [waiting])
      rw [waiter_own owning up found waiting] at current
      exact Or.inr (Or.inr (congrArg _ current))
    · left
      change (node.waiters.delete proposal.entry.index).get index = some channel
      rw [Bucket.get_delete, if_neg own]
      exact waiting

theorem keepsWaiters_iff (owning : Owning cfg p) (stepped : p.step cfg apply plan event = some q) :
    p.KeepsWaiters event q ↔ p.Timely event := by
  cases event with
  | deregister k => exact keepsWaiters_deregister owning stepped
  | _ => exact ⟨fun _ => trivial, fun _ => keepsWaiters_other owning (by simp) stepped⟩

end Runs

/-- In a run every waiter leaves the registry by its own outcome or its own call
exactly if every deregistration arrives in time. -/
theorem waiters_kept_iff_timely (cfg : Config) (apply : Option (ApplyFunc σ ρ)) (app : σ)
    (trace : List (Plan × NodeEvent)) :
    (Process.init app).Throughout cfg apply trace Process.KeepsWaiters ↔
      (Process.init app).Throughout cfg apply trace fun before event _ => before.Timely event := by
  have step : ∀ early plan event before after,
      (Process.init app).steps cfg apply early = some before →
      before.step cfg apply plan event = some after →
      (before.KeepsWaiters event after ↔ before.Timely event) := by
    intro early plan event before after ran stepped
    exact keepsWaiters_iff (owning_steps early (owning_init cfg app) ran) stepped
  constructor
  · intro keeps early plan event late before after split ran stepped
    rw [← step early plan event before after ran stepped]
    exact keeps early plan event late before after split ran stepped
  · intro timely early plan event late before after split ran stepped
    rw [step early plan event before after ran stepped]
    exact timely early plan event late before after split ran stepped

/-- Cut off with two calls pending, of which the second expires, the leader of term
1 takes over the log of the leader of term 2; elected again it serves a new call. -/
def reusedIndex : List (Plan × NodeEvent) :=
  [.restart, .electionTimeout, .voteResponse 1 ⟨protocolVersion, "b", 1, true⟩ false,
    .propose [1], .propose [2], .expire 1,
    .appendEntries ⟨protocolVersion, "trio", "b", 2, "b", 0, 0, [⟨1, 2, .noop, []⟩], 0⟩,
    .electionTimeout, .voteResponse 3 ⟨protocolVersion, "c", 3, true⟩ false,
    .propose [3]].map fun event => (Plan.smooth, event)

/-- The deregistration of the expired call takes away the waiter of the new one. -/
theorem waiter_dropped_late :
    ¬ (Process.init () : Process Unit Unit).Throughout firstOfTrio none
      (reusedIndex ++ [(Plan.smooth, .deregister 1)]) Process.KeepsWaiters := by
  intro keeps
  have lost := keeps reusedIndex Plan.smooth (.deregister 1) [] _ _ rfl rfl rfl _ _ 3 2 rfl rfl rfl
  rcases lost with there | ⟨outcome, member⟩ | same
  · cases there
  · cases member
  · cases same

end QuorumLimiter
