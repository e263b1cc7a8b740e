import Mathlib.Data.List.Sort
import QuorumLimiter.Raft.Types

/-!
The event-loop handlers of a node, branch by branch as the source runs them. A
handler is a procedure over `Local`; each store call may fail or be the last
thing the process does.
-/

namespace QuorumLimiter

section Transitions

variable {σ ρ : Type}

/-- Complete every pending waiter with an error and clear the registry. -/
def Local.failWaiters (s : Local σ ρ) (error : RaftError) : Local σ ρ :=
  { s with
    outcomes := s.outcomes ++ s.node.waiters.pairs.map fun pair => (pair.2, .error error)
    node := { s.node with waiters := Bucket.empty } }

/-- The part of `becomeFollower` after the term rule. -/
def Local.follow (s : Local σ ρ) (leaderID : String) : Local σ ρ :=
  let stepped := s.onNode fun n =>
    ({ n with role := .follower, leaderID := leaderID }).stopHeartbeat.resetElectionTimer
  if s.node.role = .leader then stepped.failWaiters .notLeader else stepped

def becomeFollower (term : Nat) (leaderID : String) : Handler σ ρ (Except CallError Unit) := do
  if term > (← Proc.get).node.currentTerm then
    match ← writeStore .setTermAndVote (·.setTermAndVote term "") with
    | .error error => return .error error
    | .ok _ =>
        updateNode fun n => { n with currentTerm := term, votedFor := "" }
        Proc.modify (·.follow leaderID)
        return .ok ()
  else
    Proc.modify (·.follow leaderID)
    return .ok ()

def Node.standFor (n : Node) (term : Nat) : Node :=
  ({ n with currentTerm := term, votedFor := n.id, role := .candidate, leaderID := "" }
    ).stopHeartbeat.resetElectionTimer

def becomeCandidate : Handler σ ρ (Except CallError Unit) := do
  let n := (← Proc.get).node
  let newTerm := n.currentTerm + 1
  match ← writeStore .setTermAndVote (·.setTermAndVote newTerm n.id) with
  | .error error => return .error error
  | .ok _ =>
      updateNode (·.standFor newTerm)
      return .ok ()

def Local.send (s : Local σ ρ) (term : Nat) (request : Request) (peers : List String) :
    Local σ ρ :=
  { s with calls := s.calls ++ peers.map fun peer => ⟨s.node.id, peer, term, request⟩ }

end Transitions

section Elections

variable {σ ρ : Type}

def persistVote (candidateID : String) : Handler σ ρ (Except CallError Unit) := do
  match ← writeStore .setVotedFor (·.setVotedFor candidateID) with
  | .error error => return .error error
  | .ok _ =>
      updateNode fun n => { n with votedFor := candidateID }
      return .ok ()

def Node.voteRequest (n : Node) : RequestVoteRequest where
  protocolVersion := protocolVersion
  clusterID := n.clusterID
  sourceNodeID := n.id
  term := n.currentTerm
  candidateID := n.id
  lastLogIndex := n.lastLogIndex
  lastLogTerm := n.lastLogTerm

/-- The candidate counts its own vote and asks every peer for theirs. -/
def Local.campaign (s : Local σ ρ) : Local σ ρ :=
  let counted := s.onNode fun n => { n with votesGranted := 1 }
  counted.send s.node.currentTerm (.vote s.node.voteRequest) s.node.peers

def startElection : Handler σ ρ Unit := do
  match ← becomeCandidate with
  | .error _ => updateNode Node.resetElectionTimer
  | .ok _ => Proc.modify Local.campaign

def onElectionTimeout : Handler σ ρ Unit := do
  if (← Proc.get).node.role = .leader then return ()
  else startElection

/-- The part of `handleRequestVote` after the term rules. -/
def castVote (req : RequestVoteRequest) (resp : RequestVoteResponse) :
    Handler σ ρ RequestVoteResponse := do
  let n := (← Proc.get).node
  let resp := { resp with term := n.currentTerm }
  let alreadyVoted := n.votedFor ≠ "" ∧ n.votedFor ≠ req.candidateID
  if ¬alreadyVoted ∧ n.candidateLogUpToDate req.lastLogTerm req.lastLogIndex then
    match ← persistVote req.candidateID with
    | .error _ => return resp
    | .ok _ =>
        updateNode Node.resetElectionTimer
        return { resp with voteGranted := true }
  else
    return resp

def handleRequestVote (req : RequestVoteRequest) : Handler σ ρ RequestVoteResponse := do
  let n := (← Proc.get).node
  let resp : RequestVoteResponse :=
    { protocolVersion := protocolVersion
      sourceNodeID := n.id
      term := n.currentTerm
      voteGranted := false }
  if req.protocolVersion ≠ protocolVersion ∨ req.clusterID ≠ n.clusterID then return resp
  else if req.term < n.currentTerm then return resp
  else if req.term > n.currentTerm then
    match ← becomeFollower req.term "" with
    | .error _ => return resp
    | .ok _ => castVote req resp
  else castVote req resp

end Elections

section Applying

variable {σ ρ : Type} (apply : Option (ApplyFunc σ ρ))

def applyTx (f : ApplyFunc σ ρ) (index term : Nat) (entry : LogEntry) (s : Local σ ρ) :
    Except CallError (Option ρ × Local σ ρ) :=
  match f index term entry (s.store.lastApplied, s.store.app) with
  | .error error => .error error
  | .ok (result, lastApplied, app) =>
      .ok (some result, s.onStore fun store => { store with lastApplied := lastApplied, app := app })

def applyEntry (index term : Nat) (entry : LogEntry) :
    Handler σ ρ (Except CallError (Option ρ)) := do
  match apply with
  | none =>
      match ← writeStore .setLastApplied (·.setLastApplied index) with
      | .error error => return .error error
      | .ok _ => return .ok none
  | some f => Proc.perform .apply (applyTx f index term entry)

/-- Record the applied index and hand the result to a waiting proposer. -/
def Local.deliver (s : Local σ ρ) (index : Nat) (result : Option ρ) : Local σ ρ :=
  match s.node.waiters.get index with
  | none => s.onNode fun n => { n with lastApplied := index }
  | some ch =>
      { s with
        outcomes := s.outcomes ++ [(ch, .ok result)]
        node := { s.node with lastApplied := index, waiters := s.node.waiters.delete index } }

/-- The loop runs while `lastApplied < commitIndex`; `rounds` is that distance. -/
def applyLoop : Nat → Handler σ ρ Unit
  | 0 => return ()
  | rounds + 1 => do
      let index := (← Proc.get).node.lastApplied + 1
      match ← readStore .entry (·.entry index) with
      | .error _ => return ()
      | .ok none => return ()
      | .ok (some entry) =>
          match ← applyEntry apply index entry.term entry with
          | .error _ => return ()
          | .ok result =>
              Proc.modify (·.deliver index result)
              applyLoop rounds

def applyCommitted : Handler σ ρ Unit := do
  let n := (← Proc.get).node
  applyLoop apply (n.commitIndex - n.lastApplied)

def replayLoop : Nat → Handler σ ρ (Except CallError Unit)
  | 0 => return .ok ()
  | rounds + 1 => do
      let index := (← Proc.get).node.lastApplied + 1
      match ← readStore .entry (·.entry index) with
      | .error error => return .error error
      | .ok none => return .error .failed
      | .ok (some entry) =>
          match ← applyEntry apply index entry.term entry with
          | .error error => return .error error
          | .ok _ =>
              updateNode fun n => { n with lastApplied := index }
              replayLoop rounds

def replayCommitted : Handler σ ρ (Except CallError Unit) := do
  let n := (← Proc.get).node
  replayLoop apply (n.commitIndex - n.lastApplied)

end Applying

section Replication

variable {σ ρ : Type} (apply : Option (ApplyFunc σ ρ))

def termAt (index : Nat) : Handler σ ρ Nat := do
  if index > 0 then
    match ← readStore .entry (·.entry index) with
    | .ok (some entry) => return entry.term
    | _ => return 0
  else return 0

def entriesFrom (next last : Nat) : Handler σ ρ (Except CallError (List LogEntry)) := do
  if next ≤ last then readStore .entries (·.entries next last)
  else return .ok []

def Node.nextFor (n : Node) (peer : String) : Nat :=
  if n.nextIndex peer < 1 then 1 else n.nextIndex peer

def Node.appendRequest (n : Node) (peer : String) (prevTerm : Nat) (entries : List LogEntry) :
    AppendEntriesRequest where
  protocolVersion := protocolVersion
  clusterID := n.clusterID
  sourceNodeID := n.id
  term := n.currentTerm
  leaderID := n.id
  prevLogIndex := n.nextFor peer - 1
  prevLogTerm := prevTerm
  entries := entries
  leaderCommit := n.commitIndex

def replicateToPeer (peer : String) : Handler σ ρ Unit := do
  let n := (← Proc.get).node
  if n.role ≠ .leader then return ()
  else
    let prevTerm ← termAt (n.nextFor peer - 1)
    match ← entriesFrom (n.nextFor peer) n.lastLogIndex with
    | .error _ => return ()
    | .ok entries =>
        Proc.modify
          (·.send n.currentTerm (.append (n.appendRequest peer prevTerm entries)) [peer])

def replicateEach : List String → Handler σ ρ Unit
  | [] => return ()
  | peer :: rest => do
      replicateToPeer peer
      replicateEach rest

def replicateToAll : Handler σ ρ Unit := do
  let n := (← Proc.get).node
  if n.role ≠ .leader then return ()
  else replicateEach n.peers

def Node.noopEntry (n : Node) : LogEntry := ⟨n.lastLogIndex + 1, n.currentTerm, .noop, []⟩

def Node.noopAppended (n : Node) (noop : LogEntry) : Node :=
  { n with
    lastLogIndex := noop.index
    lastLogTerm := noop.term
    nextIndex := fun peer => if peer = n.id then noop.index + 1 else n.nextIndex peer }

def promoteToLeader : Handler σ ρ Unit := do
  updateNode Node.becomeLeader
  let noop := (← Proc.get).node.noopEntry
  match ← writeStore .appendEntries (·.appendEntries [noop]) with
  | .error _ => replicateToAll
  | .ok _ =>
      updateNode (·.noopAppended noop)
      replicateToAll

/-- `err` is true when the RPC itself failed. -/
def handleVoteResponse (term : Nat) (resp : RequestVoteResponse) (err : Bool) :
    Handler σ ρ Unit := do
  let n := (← Proc.get).node
  if err then return ()
  else if resp.term > n.currentTerm then
    let _ ← becomeFollower resp.term ""
    return ()
  else if n.role ≠ .candidate ∨ term ≠ n.currentTerm then return ()
  else if resp.voteGranted then
    updateNode fun n => { n with votesGranted := n.votesGranted + 1 }
    let n := (← Proc.get).node
    if n.votesGranted ≥ n.quorum then promoteToLeader
    else return ()
  else return ()

def onHeartbeat : Handler σ ρ Unit := do
  if (← Proc.get).node.role ≠ .leader then updateNode Node.stopHeartbeat
  else
    replicateToAll
    updateNode Node.startHeartbeat

def Node.matches (n : Node) : List Nat := n.lastLogIndex :: n.peers.map n.matchIndex

def Node.majorityIndex (n : Node) : Nat :=
  (n.matches.insertionSort (· ≥ ·)).getD (n.quorum - 1) 0

def advanceCommit : Handler σ ρ Unit := do
  let n := (← Proc.get).node
  let candidate := n.majorityIndex
  if candidate ≤ n.commitIndex then return ()
  else
    match ← readStore .entry (·.entry candidate) with
    | .error _ => return ()
    | .ok none => return ()
    | .ok (some entry) =>
        if entry.term ≠ n.currentTerm then return ()
        else
          updateNode fun n => { n with commitIndex := candidate }
          let _ ← writeStore .setCommitIndex (·.setCommitIndex candidate)
          applyCommitted apply
          replicateToAll

/-- Scans down from `index`; 0 when no entry has the term or a read fails. -/
def lastIndexLoop (term : Nat) : Nat → Handler σ ρ Nat
  | 0 => return 0
  | index + 1 => do
      match ← readStore .entry (·.entry (index + 1)) with
      | .ok (some entry) =>
          if entry.term = term then return index + 1
          else lastIndexLoop term index
      | _ => return 0

def lastIndexWithTerm (term : Nat) : Handler σ ρ Nat := do
  lastIndexLoop term (← Proc.get).node.lastLogIndex

/-- The index the conflict hints point to, before the lower bound of 1. -/
def conflictNext (resp : AppendEntriesResponse) : Handler σ ρ Nat := do
  if resp.conflictTerm = 0 then return resp.conflictIndex
  else
    let index ← lastIndexWithTerm resp.conflictTerm
    if index > 0 then return index + 1
    else return resp.conflictIndex

def setNextIndex (peer : String) (next : Nat) (n : Node) : Node :=
  { n with nextIndex := fun other => if other = peer then next else n.nextIndex other }

def backupNextIndex (peer : String) (resp : AppendEntriesResponse) : Handler σ ρ Unit := do
  let next ← conflictNext resp
  updateNode (setNextIndex peer (if next < 1 then 1 else next))

def recordMatch (peer : String) (matchIndex : Nat) (n : Node) : Node :=
  if matchIndex > n.matchIndex peer then
    { n with
      matchIndex := fun other => if other = peer then matchIndex else n.matchIndex other
      nextIndex := fun other => if other = peer then matchIndex + 1 else n.nextIndex other }
  else n

def handleAppendResponse (peer : String) (term : Nat) (resp : AppendEntriesResponse) (err : Bool) :
    Handler σ ρ Unit := do
  let n := (← Proc.get).node
  if err then return ()
  else if resp.term > n.currentTerm then
    let _ ← becomeFollower resp.term ""
    return ()
  else if n.role ≠ .leader ∨ term ≠ n.currentTerm then return ()
  else if resp.success then
    updateNode (recordMatch peer resp.matchIndex)
    advanceCommit apply
  else
    backupNextIndex peer resp
    replicateToPeer peer

end Replication

section Receiving

variable {σ ρ : Type} (apply : Option (ApplyFunc σ ρ))

def firstIndexLoop (term : Nat) : Nat → Handler σ ρ Nat
  | 0 => return 0
  | 1 => return 1
  | index + 2 => do
      match ← readStore .entry (·.entry (index + 1)) with
      | .ok (some entry) =>
          if entry.term = term then firstIndexLoop term (index + 1)
          else return index + 2
      | _ => return index + 2

def firstIndexOfTerm (start term : Nat) : Handler σ ρ Nat :=
  if term = 0 then return start else firstIndexLoop term start

/-- Where to truncate (0 for nowhere) and what to append after `prevIndex`. -/
def reconcileEntries : Nat → List LogEntry → Handler σ ρ (Except CallError (Nat × List LogEntry))
  | _, [] => return .ok (0, [])
  | prevIndex, first :: rest => do
      match ← readStore .entry (·.entry (prevIndex + 1)) with
      | .error error => return .error error
      | .ok none => return .ok (0, first :: rest)
      | .ok (some existing) =>
          if existing.term ≠ first.term then return .ok (prevIndex + 1, first :: rest)
          else reconcileEntries (prevIndex + 1) rest

def Node.cacheTail (n : Node) (last : Nat) (found : Option LogEntry) : Node :=
  { n with lastLogIndex := last, lastLogTerm := (found.map (·.term)).getD 0 }

def refreshLastLog : Handler σ ρ (Except CallError Unit) := do
  match ← readStore .lastIndex (·.lastIndex) with
  | .error error => return .error error
  | .ok last =>
      match ← readStore .entry (·.entry last) with
      | .error error => return .error error
      | .ok found =>
          updateNode (·.cacheTail last found)
          return .ok ()

/-- Answer success and advance the commit index to what the leader reports. -/
def acceptEntries (req : AppendEntriesRequest) (resp : AppendEntriesResponse) :
    Handler σ ρ AppendEntriesResponse := do
  let n := (← Proc.get).node
  let matchIndex := req.prevLogIndex + req.entries.length
  let resp := { resp with success := true, matchIndex := matchIndex }
  let newCommit := if matchIndex < req.leaderCommit then matchIndex else req.leaderCommit
  if req.leaderCommit > n.commitIndex ∧ newCommit > n.commitIndex then
    updateNode fun n => { n with commitIndex := newCommit }
    let _ ← writeStore .setCommitIndex (·.setCommitIndex newCommit)
    applyCommitted apply
    return resp
  else return resp

def mergeEntries (req : AppendEntriesRequest) (resp : AppendEntriesResponse) :
    Handler σ ρ AppendEntriesResponse := do
  match ← reconcileEntries req.prevLogIndex req.entries with
  | .error _ => return resp
  | .ok (truncateFrom, toAppend) =>
      if truncateFrom > 0 ∨ toAppend ≠ [] then
        match ← writeStore .overwriteEntries (·.overwriteEntries truncateFrom toAppend) with
        | .error _ => return resp
        | .ok _ =>
            match ← refreshLastLog with
            | .error _ => return resp
            | .ok _ => acceptEntries apply req resp
      else acceptEntries apply req resp

/-- The log check at `prevLogIndex`, with conflict hints on a mismatch. -/
def checkPrevious (req : AppendEntriesRequest) (resp : AppendEntriesResponse) :
    Handler σ ρ AppendEntriesResponse := do
  let n := (← Proc.get).node
  let resp := { resp with term := n.currentTerm }
  if req.prevLogIndex > n.lastLogIndex then
    return { resp with conflictTerm := 0, conflictIndex := n.lastLogIndex + 1 }
  else if req.prevLogIndex > 0 then
    match ← readStore .entry (·.entry req.prevLogIndex) with
    | .error _ => return resp
    | .ok none =>
        return { resp with
          conflictTerm := 0
          conflictIndex := ← firstIndexOfTerm req.prevLogIndex 0 }
    | .ok (some entry) =>
        if entry.term ≠ req.prevLogTerm then
          return { resp with
            conflictTerm := entry.term
            conflictIndex := ← firstIndexOfTerm req.prevLogIndex entry.term }
        else mergeEntries apply req resp
  else mergeEntries apply req resp

def handleAppendEntries (req : AppendEntriesRequest) : Handler σ ρ AppendEntriesResponse := do
  let n := (← Proc.get).node
  let resp : AppendEntriesResponse :=
    { protocolVersion := protocolVersion
      sourceNodeID := n.id
      term := n.currentTerm
      success := false
      matchIndex := 0
      conflictTerm := 0
      conflictIndex := 0 }
  if req.protocolVersion ≠ protocolVersion ∨ req.clusterID ≠ n.clusterID then return resp
  else if req.term < n.currentTerm then return resp
  else
    match ← becomeFollower req.term req.leaderID with
    | .error _ => return resp
    | .ok _ => checkPrevious apply req resp

end Receiving

section Proposing

variable {σ ρ : Type}

def Node.commandEntry (n : Node) (command : List UInt8) : LogEntry :=
  ⟨n.lastLogIndex + 1, n.currentTerm, .command, command⟩

def Local.register (s : Local σ ρ) (entry : LogEntry) : Local σ ρ :=
  { s with
    node := { s.node with
      lastLogIndex := entry.index
      lastLogTerm := s.node.currentTerm
      waiters := s.node.waiters.put entry.index s.proposals.length }
    proposals := s.proposals ++ [⟨s.node.id, entry, .waiting⟩] }

/-- Returns the registration: the entry's index and the waiter's channel. -/
def handlePropose (command : List UInt8) : Handler σ ρ (Except RaftError (Nat × Nat)) := do
  let s ← Proc.get
  if s.node.role ≠ .leader then return .error .notLeader
  else
    let entry := s.node.commandEntry command
    match ← writeStore .appendEntries (·.appendEntries [entry]) with
    | .error _ => return .error .store
    | .ok _ =>
        Proc.modify (·.register entry)
        replicateToAll
        return .ok (entry.index, s.proposals.length)

def deregister (index : Nat) : Handler σ ρ Unit :=
  updateNode fun n => { n with waiters := n.waiters.delete index }

end Proposing

section Recovery

variable {σ ρ : Type} (apply : Option (ApplyFunc σ ρ))

/-- The node object before `recover` fills it from the store. -/
def Config.blank (cfg : Config) : Node where
  id := cfg.nodeID
  clusterID := cfg.clusterID
  peers := cfg.peers.filter (· ≠ cfg.nodeID)
  quorum := cfg.peers.length / 2 + 1
  role := .follower
  currentTerm := 0
  votedFor := ""
  leaderID := ""
  commitIndex := 0
  lastApplied := 0
  lastLogIndex := 0
  lastLogTerm := 0
  nextIndex := fun _ => 0
  matchIndex := fun _ => 0
  votesGranted := 0
  waiters := Bucket.empty
  electionCh := none
  heartbeatCh := none
  timers := 0

def recoverClusterID : Handler σ ρ (Except CallError Unit) := do
  match ← readStore .clusterID (·.clusterID) with
  | .error error => return .error error
  | .ok stored =>
      let n := (← Proc.get).node
      if stored = "" then
        if n.clusterID = "" then return .error .failed
        else writeStore .setClusterID (·.setClusterID n.clusterID)
      else if n.clusterID ≠ "" ∧ stored ≠ n.clusterID then return .error .failed
      else
        updateNode fun n => { n with clusterID := stored }
        return .ok ()

def Node.restored (n : Node) (term : Nat) (vote : String) (last : Nat) (found : Option LogEntry)
    (commit applied : Nat) : Node :=
  { n with
    currentTerm := term
    votedFor := vote
    lastLogIndex := last
    lastLogTerm := (found.map (·.term)).getD 0
    commitIndex := commit
    lastApplied := applied
    role := .follower
    leaderID := "" }

/-- The reads of `recover`, in order: term, vote, last index, last entry, commit
and applied checkpoints. -/
def readCheckpoints : Handler σ ρ (Except CallError Unit) := do
  match ← readStore .currentTerm (·.currentTerm) with
  | .error error => return .error error
  | .ok term =>
  match ← readStore .votedFor (·.votedFor) with
  | .error error => return .error error
  | .ok vote =>
  match ← readStore .lastIndex (·.lastIndex) with
  | .error error => return .error error
  | .ok last =>
  match ← readStore .entry (·.entry last) with
  | .error error => return .error error
  | .ok found =>
  match ← readStore .commitIndex (·.commitIndex) with
  | .error error => return .error error
  | .ok commit =>
  match ← readStore .lastApplied (·.lastApplied) with
  | .error error => return .error error
  | .ok applied =>
      updateNode (·.restored term vote last found commit applied)
      return .ok ()

def recover : Handler σ ρ (Except CallError Unit) := do
  match ← recoverClusterID with
  | .error error => return .error error
  | .ok _ =>
      match ← readCheckpoints with
      | .error error => return .error error
      | .ok _ => replayCommitted apply

/-- `New`: recover the node and enter the event loop, which arms the election
timer first. -/
def start : Handler σ ρ (Except CallError Unit) := do
  if (← Proc.get).node.id = "" then return .error .failed
  else
    match ← recover apply with
    | .error error => return .error error
    | .ok _ =>
        updateNode Node.resetElectionTimer
        return .ok ()

end Recovery

end QuorumLimiter
