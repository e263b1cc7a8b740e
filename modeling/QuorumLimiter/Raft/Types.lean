import QuorumLimiter.Lib.FaultProc
import QuorumLimiter.Storage.RaftStore

/-!
The data of a node: wire messages, the fields its event loop owns, and `Local`,
everything one handler can read or write. Spawned RPC goroutines are recorded in
`calls`, registered proposals in `proposals` (a proposal's position stands for
its result channel), and channel sends in `outcomes`.
-/

namespace QuorumLimiter

def protocolVersion : Nat := 1

inductive Role
  | follower
  | candidate
  | leader
  deriving DecidableEq, Repr

inductive RaftError
  | stopped
  | notLeader
  | noLeader
  | proposalTimeout
  | lostQuorum
  | context
  | store
  deriving DecidableEq, Repr

structure RequestVoteRequest where
  protocolVersion : Nat
  clusterID : String
  sourceNodeID : String
  term : Nat
  candidateID : String
  lastLogIndex : Nat
  lastLogTerm : Nat
  deriving DecidableEq, Repr

structure RequestVoteResponse where
  protocolVersion : Nat
  sourceNodeID : String
  term : Nat
  voteGranted : Bool
  deriving DecidableEq, Repr

structure AppendEntriesRequest where
  protocolVersion : Nat
  clusterID : String
  sourceNodeID : String
  term : Nat
  leaderID : String
  prevLogIndex : Nat
  prevLogTerm : Nat
  entries : List LogEntry
  leaderCommit : Nat
  deriving DecidableEq, Repr

structure AppendEntriesResponse where
  protocolVersion : Nat
  sourceNodeID : String
  term : Nat
  success : Bool
  matchIndex : Nat
  conflictTerm : Nat
  conflictIndex : Nat
  deriving DecidableEq, Repr

inductive Request
  | vote (req : RequestVoteRequest)
  | append (req : AppendEntriesRequest)
  deriving DecidableEq, Repr

inductive Response
  | vote (resp : RequestVoteResponse)
  | append (resp : AppendEntriesResponse)
  deriving DecidableEq, Repr

/-- An RPC goroutine: the node that spawned it, the peer it calls, the term it
was spawned in, and the request it carries. -/
structure Call where
  source : String
  peer : String
  term : Nat
  request : Request
  deriving DecidableEq, Repr

abbrev Outcome (ρ : Type) := Except RaftError (Option ρ)

inductive ProposalState (ρ : Type)
  | waiting
  | expired
  | finished (outcome : Outcome ρ)
  deriving DecidableEq

/-- A `Propose` call whose entry was appended and whose waiter was registered. -/
structure Proposal (ρ : Type) where
  node : String
  entry : LogEntry
  state : ProposalState ρ

/-- The store calls of the event loop. -/
inductive StoreOp
  | currentTerm
  | votedFor
  | setVotedFor
  | setTermAndVote
  | lastIndex
  | entry
  | entries
  | appendEntries
  | overwriteEntries
  | commitIndex
  | setCommitIndex
  | lastApplied
  | setLastApplied
  | clusterID
  | setClusterID
  | apply
  deriving DecidableEq, Repr

/-- The empty string stands for no vote. -/
def namedVote (votedFor : String) : Option String := if votedFor = "" then none else some votedFor

theorem namedVote_of_ne {votedFor : String} (named : votedFor ≠ "") :
    namedVote votedFor = some votedFor := if_neg named

structure Config where
  nodeID : String
  clusterID : String
  peers : List String
  deriving DecidableEq, Repr

structure Node where
  id : String
  clusterID : String
  peers : List String
  quorum : Nat
  role : Role
  currentTerm : Nat
  votedFor : String
  leaderID : String
  commitIndex : Nat
  lastApplied : Nat
  lastLogIndex : Nat
  lastLogTerm : Nat
  nextIndex : String → Nat
  matchIndex : String → Nat
  votesGranted : Nat
  /-- Result channels of registered proposals, by log index. -/
  waiters : Bucket Nat Nat
  /-- The armed timers, each named by the number it was created with. -/
  electionCh : Option Nat
  heartbeatCh : Option Nat
  timers : Nat

/-- Applies a committed entry to the application state and its checkpoint. -/
abbrev ApplyFunc (σ ρ : Type) :=
  Nat → Nat → LogEntry → Nat × σ → Except CallError (ρ × Nat × σ)

structure Local (σ ρ : Type) where
  node : Node
  store : Store σ
  calls : List Call
  proposals : List (Proposal ρ)
  outcomes : List (Nat × Outcome ρ)

abbrev Handler (σ ρ α : Type) := Proc StoreOp (Local σ ρ) α

section

variable {σ ρ : Type}

def Local.onNode (s : Local σ ρ) (update : Node → Node) : Local σ ρ :=
  { s with node := update s.node }

def Local.onStore (s : Local σ ρ) (update : Store σ → Store σ) : Local σ ρ :=
  { s with store := update s.store }

def updateNode (update : Node → Node) : Handler σ ρ Unit := Proc.modify (·.onNode update)

def readStore {α : Type} (op : StoreOp) (look : Store σ → α) : Handler σ ρ (Except CallError α) :=
  Proc.read op fun s => look s.store

def writeStore (op : StoreOp) (update : Store σ → Store σ) :
    Handler σ ρ (Except CallError Unit) :=
  Proc.write op (·.onStore update)

end

namespace Node

def resetElectionTimer (n : Node) : Node :=
  { n with electionCh := some n.timers, timers := n.timers + 1 }

def stopElectionTimer (n : Node) : Node := { n with electionCh := none }

def startHeartbeat (n : Node) : Node :=
  { n with heartbeatCh := some n.timers, timers := n.timers + 1 }

def stopHeartbeat (n : Node) : Node := { n with heartbeatCh := none }

/-- The candidate's log is at least as up to date as this node's. -/
def candidateLogUpToDate (n : Node) (lastLogTerm lastLogIndex : Nat) : Bool :=
  if lastLogTerm ≠ n.lastLogTerm then decide (lastLogTerm > n.lastLogTerm)
  else decide (lastLogIndex ≥ n.lastLogIndex)

def becomeLeader (n : Node) : Node :=
  let led := { n with
    role := .leader
    leaderID := n.id
    nextIndex := fun peer => if peer ∈ n.peers then n.lastLogIndex + 1 else 0
    matchIndex := fun _ => 0 }
  led.stopElectionTimer.startHeartbeat

end Node

end QuorumLimiter
