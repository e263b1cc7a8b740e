import QuorumLimiter.Raft.Tracing

/-!
One node among peers of which nothing is known: requests and answers of any
content arrive in any order, beside the node's own timers and callers, store
faults, crashes and restarts. `Stepped` says once what an event can do.
-/

namespace QuorumLimiter

open Relation

structure Process (σ ρ : Type) where
  node : Option Node
  store : Store σ
  calls : List Call
  proposals : List (Proposal ρ)
  outcomes : List (Nat × Outcome ρ)
  /-- The vote requests answered so far. -/
  votes : List (RequestVoteRequest × RequestVoteResponse)

inductive NodeEvent
  | requestVote (req : RequestVoteRequest)
  | appendEntries (req : AppendEntriesRequest)
  | voteResponse (term : Nat) (resp : RequestVoteResponse) (err : Bool)
  | appendResponse (peer : String) (term : Nat) (resp : AppendEntriesResponse) (err : Bool)
  | electionTimeout
  | heartbeat
  | propose (command : List UInt8)
  | collect (proposal : Nat)
  | expire (proposal : Nat)
  | deregister (proposal : Nat)
  | abandon (proposal : Nat)
  | crash
  | restart
  deriving DecidableEq, Repr

variable {σ ρ α : Type}

/-- The caller of a stopped node returns, or has no process left to run in. -/
def Proposal.stop (proposal : Proposal ρ) : Proposal ρ :=
  match proposal.state with
  | .waiting => { proposal with state := .finished (.error .stopped) }
  | .expired => { proposal with state := .finished (.error .proposalTimeout) }
  | .finished _ => proposal

namespace Process

def init (app : σ) : Process σ ρ where
  node := none
  store := Store.migrated app
  calls := []
  proposals := []
  outcomes := []
  votes := []

def view (p : Process σ ρ) (node : Node) : Local σ ρ where
  node := node
  store := p.store
  calls := p.calls
  proposals := p.proposals
  outcomes := p.outcomes

def put (p : Process σ ρ) (s : Local σ ρ) : Process σ ρ :=
  { p with
    node := some s.node
    store := s.store
    calls := s.calls
    proposals := s.proposals
    outcomes := s.outcomes }

def down (p : Process σ ρ) : Process σ ρ :=
  { p with
    node := none
    proposals := p.proposals.map Proposal.stop }

def setProposal (p : Process σ ρ) (k : Nat) (state : ProposalState ρ) : Process σ ρ :=
  { p with proposals := p.proposals.modify k fun proposal => { proposal with state := state } }

def answer (p : Process σ ρ) (req : RequestVoteRequest) (resp : RequestVoteResponse) :
    Process σ ρ :=
  { p with votes := p.votes ++ [(req, resp)] }

def run (p : Process σ ρ) (plan : Plan) (handler : Handler σ ρ α) :
    Option (Option α × Process σ ρ) :=
  match p.node with
  | none => none
  | some node =>
      match handler.run plan [] (p.view node) with
      | (some value, _, s) => some (some value, p.put s)
      | (none, _, s) => some (none, (p.put s).down)

variable (cfg : Config) (apply : Option (ApplyFunc σ ρ))

def restart (plan : Plan) (p : Process σ ρ) : Process σ ρ :=
  match (start apply).run plan [] (p.view cfg.blank) with
  | (some (.ok _), _, s) => p.put s
  | (_, _, s) => (p.put s).down

/-- One event under a fault plan; `none` when the event cannot happen. -/
def step (plan : Plan) (p : Process σ ρ) : NodeEvent → Option (Process σ ρ)
  | .requestVote req =>
      (p.run plan (handleRequestVote req)).map fun (resp, p) =>
        match resp with
        | none => p
        | some resp => p.answer req resp
  | .appendEntries req => (p.run plan (handleAppendEntries apply req)).map Prod.snd
  | .voteResponse term resp err => (p.run plan (handleVoteResponse term resp err)).map Prod.snd
  | .appendResponse peer term resp err =>
      (p.run plan (handleAppendResponse apply peer term resp err)).map Prod.snd
  | .electionTimeout =>
      match p.node with
      | some node =>
          if node.electionCh.isSome then (p.run plan onElectionTimeout).map Prod.snd else none
      | none => none
  | .heartbeat =>
      match p.node with
      | some node =>
          if node.heartbeatCh.isSome then (p.run plan onHeartbeat).map Prod.snd else none
      | none => none
  | .propose command => (p.run plan (handlePropose command)).map Prod.snd
  | .collect k =>
      match p.proposals[k]?, p.outcomes.find? (·.1 = k) with
      | some ⟨_, _, .waiting⟩, some outcome => some (p.setProposal k (.finished outcome.2))
      | _, _ => none
  | .expire k =>
      match p.proposals[k]? with
      | some ⟨_, _, .waiting⟩ => some (p.setProposal k .expired)
      | _ => none
  | .deregister k =>
      match p.proposals[k]? with
      | some ⟨_, entry, .expired⟩ =>
          (p.run plan (QuorumLimiter.deregister entry.index)).map fun (_, p) =>
            p.setProposal k (.finished (.error .proposalTimeout))
      | _ => none
  | .abandon k =>
      match p.proposals[k]? with
      | some ⟨_, _, .waiting⟩ => some (p.setProposal k (.finished (.error .context)))
      | _ => none
  | .crash => if p.node.isSome then some p.down else none
  | .restart => if p.node.isNone then some (p.restart cfg apply plan) else none

def steps (p : Process σ ρ) : List (Plan × NodeEvent) → Option (Process σ ρ)
  | [] => some p
  | (plan, event) :: rest =>
      match p.step cfg apply plan event with
      | some after => steps after rest
      | none => none

theorem steps_append (p : Process σ ρ) (early late : List (Plan × NodeEvent)) :
    p.steps cfg apply (early ++ late) =
      (p.steps cfg apply early).bind fun q => q.steps cfg apply late := by
  induction early generalizing p with
  | nil => rfl
  | cons entry rest ih =>
      simp only [List.cons_append, steps]
      cases p.step cfg apply entry.1 entry.2 with
      | none => rfl
      | some after => exact ih after

def input (node : Node) : NodeEvent → Input
  | .requestVote req => .voteRequest req
  | .appendEntries req => .appendRequest req
  | .voteResponse _ resp _ => .uncounted resp
  | .appendResponse peer term resp _ => .appendReply peer term resp
  | .electionTimeout => .timeout node.currentTerm
  | .propose command => .proposal command
  | _ => .other

end Process

/-- Where the moves of an event begin: at the node as it is, at the node with one
more vote, or at the node that `recover` rebuilds. -/
inductive Begins (cfg : Config) (p : Process σ ρ) (event : NodeEvent) : Input → Local σ ρ → Prop
  | here (node : Node) (up : p.node = some node) :
      Begins cfg p event (Process.input node event) (p.view node)
  | counted (node : Node) (term : Nat) (resp : RequestVoteResponse) (err : Bool)
      (up : p.node = some node) (same : event = .voteResponse term resp err)
      (counts : CountsVote term resp err (p.view node)) :
      Begins cfg p event (.counted node.id resp) (p.view node).count
  | woken (clusterID : String) (stopped : p.node = none) (same : event = .restart)
      (named : cfg.nodeID ≠ "") :
      Begins cfg p event .other ((p.view cfg.blank).wake clusterID)

inductive Stepped (cfg : Config) (apply : Option (ApplyFunc σ ρ)) (plan : Plan) (p : Process σ ρ)
    (event : NodeEvent) : Process σ ρ → Prop
  | served (inp : Input) (origin s : Local σ ρ) (begins : Begins cfg p event inp origin)
      (path : Moves apply plan inp origin s) : Stepped cfg apply plan p event (p.put s)
  | answered (node : Node) (req : RequestVoteRequest) (resp : RequestVoteResponse)
      (s : Local σ ρ) (up : p.node = some node) (same : event = .requestVote req)
      (path : Moves apply plan (.voteRequest req) (p.view node) s) (answer : VoteAnswer req resp s) :
      Stepped cfg apply plan p event ((p.put s).answer req resp)
  | cut (inp : Input) (origin s : Local σ ρ) (begins : Begins cfg p event inp origin)
      (path : Moves apply plan inp origin s) : Stepped cfg apply plan p event (p.put s).down
  | dropped (node : Node) (k : Nat) (proposal : Proposal ρ) (up : p.node = some node)
      (same : event = .deregister k) (found : p.proposals[k]? = some proposal) :
      Stepped cfg apply plan p event ((p.put ((p.view node).onNode fun n =>
        { n with waiters := n.waiters.delete proposal.entry.index })).setProposal k
          (.finished (.error .proposalTimeout)))
  | caller (k : Nat) (state : ProposalState ρ) :
      Stepped cfg apply plan p event (p.setProposal k state)
  | crashed : Stepped cfg apply plan p event p.down

section Inversion

variable {cfg : Config} {apply : Option (ApplyFunc σ ρ)} {plan : Plan} {p q : Process σ ρ}
  {event : NodeEvent} {inp : Input} {origin s : Local σ ρ}

theorem down_crashed (crashed : Crashed apply plan inp origin s) :
    ∃ reached, Moves apply plan inp origin reached ∧ (p.put s).down = (p.put reached).down := by
  obtain ⟨reached, path, store, calls, proposals, outcomes⟩ := crashed
  refine ⟨reached, path, ?_⟩
  simp only [Process.down, Process.put, store, calls, proposals, outcomes]

theorem run_stepped {handler : Handler σ ρ α} {post : α → Local σ ρ → Prop} {result : Option α}
    {node : Node} (up : p.node = some node)
    (traced : Traced apply plan inp origin handler post [] (p.view node))
    (ran : p.run plan handler = some (result, q)) :
    (∃ value s, result = some value ∧ q = p.put s ∧ Moves apply plan inp origin s ∧ post value s) ∨
      result = none ∧ ∃ s, q = (p.put s).down ∧ Moves apply plan inp origin s := by
  -- A traced handler leaves the process on its path of moves, or ends it there.
  simp only [Traced, Proc.wp] at traced
  simp only [Process.run, up] at ran
  split at traced
  · rename_i value _ s returned
    simp only [returned, Option.some.injEq, Prod.mk.injEq] at ran
    exact Or.inl ⟨value, s, ran.1.symm, ran.2.symm, traced⟩
  · rename_i _ s cut
    simp only [cut, Option.some.injEq, Prod.mk.injEq] at ran
    obtain ⟨reached, path, same⟩ := down_crashed (p := p) traced
    exact Or.inr ⟨ran.1.symm, reached, ran.2.symm.trans same, path⟩

theorem run_up {handler : Handler σ ρ α} {result : Option α × Process σ ρ}
    (ran : p.run plan handler = some result) : ∃ node, p.node = some node := by
  unfold Process.run at ran
  split at ran
  · contradiction
  · rename_i node up
    exact ⟨node, up⟩

theorem run_served {handler : Handler σ ρ α} {post : α → Local σ ρ → Prop} {node : Node}
    (begins : Begins cfg p event inp origin) (up : p.node = some node)
    (traced : Traced apply plan inp origin handler post [] (p.view node))
    (ran : (p.run plan handler).map Prod.snd = some q) : Stepped cfg apply plan p event q := by
  obtain ⟨⟨result, reached⟩, returned, rfl⟩ := Option.map_eq_some_iff.mp ran
  rcases run_stepped up traced returned with ⟨_, s, _, rfl, path, _⟩ | ⟨_, s, rfl, path⟩
  · exact Stepped.served inp origin s begins path
  · exact Stepped.cut inp origin s begins path

theorem restart_unnamed (unnamed : cfg.nodeID = "") : p.restart cfg apply plan = p.down := by
  have run : (start apply).run plan [] (p.view cfg.blank) =
      (some (.error .failed), [], p.view cfg.blank) := by
    have blank : (p.view cfg.blank).node.id = "" := unnamed
    simp only [start, bind, Proc.get, blank, if_true, pure]
  rw [Process.restart, run]
  rfl

theorem restart_stepped (stopped : p.node = none) :
    Stepped cfg apply plan p .restart (p.restart cfg apply plan) := by
  by_cases named : cfg.nodeID = ""
  · rw [restart_unnamed named]
    exact Stepped.crashed
  have begins : ∀ clusterID, Begins cfg p .restart .other ((p.view cfg.blank).wake clusterID) :=
    fun clusterID => Begins.woken clusterID stopped rfl named
  have fallen : ∀ s, Woken apply plan (p.view cfg.blank) s →
      Stepped cfg apply plan p .restart (p.put s).down := by
    rintro s ⟨clusterID, crashed⟩
    obtain ⟨reached, path, same⟩ := down_crashed (p := p) crashed
    rw [same]
    exact Stepped.cut .other _ reached (begins clusterID) path
  have spec : Proc.wp (start apply) plan _ _ [] (p.view cfg.blank) := wp_start rfl
  simp only [Proc.wp] at spec
  unfold Process.restart
  split at spec
  · rename_i result _ s run
    rw [run]
    cases result with
    | error error => exact fallen s spec.1
    | ok _ =>
        obtain ⟨clusterID, path⟩ := spec.2 rfl
        exact Stepped.served .other _ s (begins clusterID) path
  · rename_i _ s run
    rw [run]
    exact fallen s spec

theorem requestVote_stepped {req : RequestVoteRequest}
    (stepped : p.step cfg apply plan (.requestVote req) = some q) :
    Stepped cfg apply plan p (.requestVote req) q := by
  obtain ⟨⟨result, reached⟩, ran, rfl⟩ := Option.map_eq_some_iff.mp stepped
  obtain ⟨node, up⟩ := run_up ran
  have traced : Traced apply plan (.voteRequest req) (p.view node) _ _ [] (p.view node) :=
    traced_handleRequestVote req rfl
  rcases run_stepped up traced ran with ⟨resp, s, rfl, rfl, path, answer⟩ | ⟨rfl, s, rfl, path⟩
  · exact Stepped.answered node req resp s up rfl path answer
  · exact Stepped.cut _ _ s (Begins.here node up) path

theorem voteResponse_stepped {term : Nat} {resp : RequestVoteResponse} {err : Bool}
    (stepped : p.step cfg apply plan (.voteResponse term resp err) = some q) :
    Stepped cfg apply plan p (.voteResponse term resp err) q := by
  obtain ⟨_, ran, _⟩ := Option.map_eq_some_iff.mp stepped
  obtain ⟨node, up⟩ := run_up ran
  by_cases counts : CountsVote term resp err (p.view node)
  · exact run_served (Begins.counted node term resp err up rfl counts) up
      (traced_handleVoteResponse_counted node.id term resp err rfl counts) stepped
  · exact run_served (Begins.here node up) up
      (traced_handleVoteResponse_ignored term resp err rfl counts) stepped

theorem deregister_eq {k : Nat} (stepped : p.step cfg apply plan (.deregister k) = some q) :
    ∃ node proposal, p.node = some node ∧ p.proposals[k]? = some proposal ∧
      q = (p.put ((p.view node).onNode fun n =>
        { n with waiters := n.waiters.delete proposal.entry.index })).setProposal k
          (.finished (.error .proposalTimeout)) := by
  -- A deregistration takes effect at once: it makes no store call.
  simp only [Process.step] at stepped
  split at stepped
  · rename_i id entry found
    obtain ⟨⟨result, reached⟩, ran, rfl⟩ := Option.map_eq_some_iff.mp stepped
    obtain ⟨node, up⟩ := run_up ran
    simp only [Process.run, up, deregister, updateNode, Proc.modify, Option.some.injEq,
      Prod.mk.injEq] at ran
    obtain ⟨rfl, rfl⟩ := ran
    exact ⟨node, _, up, found, rfl⟩
  · contradiction

/-- Every event takes the process along a path of moves, changes what a caller
waits for, or ends the process. -/
theorem step_stepped (stepped : p.step cfg apply plan event = some q) :
    Stepped cfg apply plan p event q := by
  cases event with
  | requestVote req => exact requestVote_stepped stepped
  | appendEntries req =>
      obtain ⟨_, ran, _⟩ := Option.map_eq_some_iff.mp stepped
      obtain ⟨node, up⟩ := run_up ran
      exact run_served (Begins.here node up) up (traced_handleAppendEntries req rfl) stepped
  | voteResponse term resp err => exact voteResponse_stepped stepped
  | appendResponse peer term resp err =>
      obtain ⟨_, ran, _⟩ := Option.map_eq_some_iff.mp stepped
      obtain ⟨node, up⟩ := run_up ran
      exact run_served (Begins.here node up) up
        (traced_handleAppendResponse peer term resp err rfl) stepped
  | electionTimeout =>
      simp only [Process.step] at stepped
      split at stepped
      · rename_i node up
        split at stepped
        · exact run_served (Begins.here node up) up (traced_onElectionTimeout rfl) stepped
        · contradiction
      · contradiction
  | heartbeat =>
      simp only [Process.step] at stepped
      split at stepped
      · rename_i node up
        split at stepped
        · exact run_served (Begins.here node up) up traced_onHeartbeat stepped
        · contradiction
      · contradiction
  | propose command =>
      obtain ⟨_, ran, _⟩ := Option.map_eq_some_iff.mp stepped
      obtain ⟨node, up⟩ := run_up ran
      exact run_served (Begins.here node up) up (traced_handlePropose command rfl) stepped
  | collect k =>
      simp only [Process.step] at stepped
      split at stepped
      · cases stepped
        exact Stepped.caller k _
      · contradiction
  | expire k =>
      simp only [Process.step] at stepped
      split at stepped
      · cases stepped
        exact Stepped.caller k _
      · contradiction
  | deregister k =>
      obtain ⟨node, proposal, up, found, rfl⟩ := deregister_eq stepped
      exact Stepped.dropped node k proposal up rfl found
  | abandon k =>
      simp only [Process.step] at stepped
      split at stepped
      · cases stepped
        exact Stepped.caller k _
      · contradiction
  | crash =>
      simp only [Process.step] at stepped
      split at stepped
      · cases stepped
        exact Stepped.crashed
      · contradiction
  | restart =>
      simp only [Process.step] at stepped
      split at stepped
      · rename_i stopped
        cases stepped
        exact restart_stepped (by simpa using stopped)
      · contradiction

end Inversion

end QuorumLimiter
