import Mathlib.Logic.Relation
import QuorumLimiter.Raft.Handlers

/-!
What a handler can do, said once. A `Move` is one atomic change of a node with
the condition under which the code makes it; every run of every handler, under
any fault plan, is a path of moves (`Traced`). A run cut short by a crash leaves
the durable state of some path behind.
-/

namespace QuorumLimiter

open Relation

inductive Input
  | timeout (term : Nat)
  | voteRequest (req : RequestVoteRequest)
  | appendRequest (req : AppendEntriesRequest)
  | counted (candidateID : String) (resp : RequestVoteResponse)
  | uncounted (resp : RequestVoteResponse)
  | appendReply (peer : String) (term : Nat) (resp : AppendEntriesResponse)
  | proposal (command : List UInt8)
  | deregister (index : Nat)
  | restart
  | other

/-- The term a message names, or an election would open. -/
def Input.term : Input → Nat
  | .timeout term => term + 1
  | .voteRequest req => req.term
  | .appendRequest req => req.term
  | .counted _ resp => resp.term
  | .uncounted resp => resp.term
  | .appendReply _ _ resp => resp.term
  | _ => 0

/-- The input is neither a vote that counts nor a restart. -/
def Input.plain : Input → Prop
  | .counted _ _ => False
  | .restart => False
  | _ => True

abbrev Plan := List StoreOp → Fault

/-- Store calls do not return errors; the process may still crash at any of them. -/
def Plan.clean (plan : Plan) : Prop := ∀ calls, plan calls ≠ .fail

def Plan.any (_ : Plan) : Prop := True

def Plan.smooth : Plan := fun _ => .pass

theorem smooth_clean : Plan.smooth.clean := by
  intro calls failed
  cases failed

def Plan.mayFail (plan : Plan) (op : StoreOp) : Prop := ∃ calls, plan (op :: calls) = .fail

/-- Some read of `refreshLastLog` can fail right after the log was overwritten. -/
def Plan.mayTear (plan : Plan) : Prop :=
  ∃ calls, plan (.lastIndex :: .overwriteEntries :: calls) = .fail ∨
    plan (.entry :: .lastIndex :: .overwriteEntries :: calls) = .fail

variable {σ ρ : Type}

def reconcile (store : Store σ) : Nat → List LogEntry → Nat × List LogEntry
  | _, [] => (0, [])
  | prevIndex, first :: rest =>
      match store.entry (prevIndex + 1) with
      | none => (0, first :: rest)
      | some existing =>
          if existing.term ≠ first.term then (prevIndex + 1, first :: rest)
          else reconcile store (prevIndex + 1) rest

/-- The store holds `prevLogIndex` with `prevLogTerm`; index 0 always matches. -/
def HoldsPrevious (req : AppendEntriesRequest) (s : Local σ ρ) : Prop :=
  req.prevLogIndex ≤ s.node.lastLogIndex ∧
    (0 < req.prevLogIndex →
      ∃ entry, s.store.entry req.prevLogIndex = some entry ∧ entry.term = req.prevLogTerm)

/-- The node follows in the request's term and, if the sent entries are numbered
in order, holds each of them by term on top of `prevLogIndex`. -/
def HoldsEntries (req : AppendEntriesRequest) (s : Local σ ρ) : Prop :=
  s.node.currentTerm = req.term ∧ s.node.role = .follower ∧
    (Consecutive req.prevLogIndex req.entries →
      (0 < req.prevLogIndex →
        ∃ entry, s.store.entry req.prevLogIndex = some entry ∧ entry.term = req.prevLogTerm) ∧
      ∀ position sent, req.entries[position]? = some sent →
        ∃ entry, s.store.entry (req.prevLogIndex + position + 1) = some entry ∧
          entry.term = sent.term)

def CommitRule (inp : Input) (s : Local σ ρ) (index : Nat) : Prop :=
  s.node.commitIndex < index ∧
    ((s.node.role = .leader ∧ index = s.node.majorityIndex ∧
        ∃ entry, s.store.entry index = some entry ∧ entry.term = s.node.currentTerm) ∨
      ∃ req, inp = .appendRequest req ∧ HoldsEntries req s ∧ index ≤ req.leaderCommit ∧
        index ≤ req.prevLogIndex + req.entries.length)

/-- The transaction of `applyEntry`. -/
def applyStep (apply : Option (ApplyFunc σ ρ)) (index term : Nat) (entry : LogEntry)
    (s : Local σ ρ) : Except CallError (Option ρ × Local σ ρ) :=
  match apply with
  | none => .ok (none, s.onStore (·.setLastApplied index))
  | some f => applyTx f index term entry s

/-- The highest index at or below `index` whose entry has the term. -/
def lastIndexIn (store : Store σ) (term : Nat) : Nat → Nat
  | 0 => 0
  | index + 1 =>
      match store.entry (index + 1) with
      | some entry => if entry.term = term then index + 1 else lastIndexIn store term index
      | none => 0

/-- Where the conflict hints of a rejection move `nextIndex`. -/
def hintedNext (s : Local σ ρ) (resp : AppendEntriesResponse) : Nat :=
  max 1 (if resp.conflictTerm = 0 then resp.conflictIndex
    else if lastIndexIn s.store resp.conflictTerm s.node.lastLogIndex > 0 then
      lastIndexIn s.store resp.conflictTerm s.node.lastLogIndex + 1
    else resp.conflictIndex)

def Store.termBefore (store : Store σ) (index : Nat) : Nat :=
  if index > 0 then ((store.entry index).map (·.term)).getD 0 else 0

namespace Local

def advanceTerm (s : Local σ ρ) (term : Nat) : Local σ ρ :=
  if term > s.node.currentTerm then
    (s.onStore (·.setTermAndVote term "")).onNode
      fun n => { n with currentTerm := term, votedFor := "" }
  else s

def stand (s : Local σ ρ) : Local σ ρ :=
  ((s.onStore (·.setTermAndVote (s.node.currentTerm + 1) s.node.id)).onNode
    (·.standFor (s.node.currentTerm + 1))).campaign

def grant (s : Local σ ρ) (candidateID : String) : Local σ ρ :=
  (s.onStore (·.setVotedFor candidateID)).onNode fun n => { n with votedFor := candidateID }

def assertLeadership (s : Local σ ρ) : Local σ ρ :=
  (s.onStore (·.appendEntries [s.node.noopEntry])).onNode (·.noopAppended s.node.noopEntry)

def propose (s : Local σ ρ) (command : List UInt8) : Local σ ρ :=
  (s.onStore (·.appendEntries [s.node.commandEntry command])).register
    (s.node.commandEntry command)

def refresh (s : Local σ ρ) : Local σ ρ :=
  s.onNode (·.cacheTail s.store.lastIndex (s.store.entry s.store.lastIndex))

def overwrite (s : Local σ ρ) (truncateFrom : Nat) (entries : List LogEntry) : Local σ ρ :=
  s.onStore (·.overwriteEntries truncateFrom entries)

def setCommit (s : Local σ ρ) (index : Nat) : Local σ ρ :=
  s.onNode fun n => { n with commitIndex := index }

def count (s : Local σ ρ) : Local σ ρ :=
  s.onNode fun n => { n with votesGranted := n.votesGranted + 1 }

/-- The node as `recover` rebuilds it once the cluster identity is settled. -/
def wake (s : Local σ ρ) (clusterID : String) : Local σ ρ :=
  (s.onStore (·.setClusterID clusterID)).onNode fun n =>
    ({ n with clusterID := clusterID }).restored s.store.currentTerm s.store.votedFor
      s.store.lastIndex (s.store.entry s.store.lastIndex) s.store.commitIndex s.store.lastApplied

def append (s : Local σ ρ) (peer : String) (prevTerm : Nat) : Local σ ρ :=
  s.send s.node.currentTerm
    (.append (s.node.appendRequest peer prevTerm
      (if s.node.nextFor peer ≤ s.node.lastLogIndex then
        s.store.entries (s.node.nextFor peer) s.node.lastLogIndex else []))) [peer]

end Local

section Fields

variable (s : Local σ ρ)

@[simp] theorem onNode_node (update : Node → Node) : (s.onNode update).node = update s.node := rfl

@[simp] theorem onNode_store (update : Node → Node) : (s.onNode update).store = s.store := rfl

@[simp] theorem onNode_calls (update : Node → Node) : (s.onNode update).calls = s.calls := rfl

@[simp] theorem onNode_proposals (update : Node → Node) :
    (s.onNode update).proposals = s.proposals := rfl

@[simp] theorem onNode_outcomes (update : Node → Node) :
    (s.onNode update).outcomes = s.outcomes := rfl

@[simp] theorem onStore_node (update : Store σ → Store σ) : (s.onStore update).node = s.node := rfl

@[simp] theorem onStore_store (update : Store σ → Store σ) :
    (s.onStore update).store = update s.store := rfl

@[simp] theorem onStore_calls (update : Store σ → Store σ) :
    (s.onStore update).calls = s.calls := rfl

@[simp] theorem onStore_proposals (update : Store σ → Store σ) :
    (s.onStore update).proposals = s.proposals := rfl

@[simp] theorem onStore_outcomes (update : Store σ → Store σ) :
    (s.onStore update).outcomes = s.outcomes := rfl

theorem follow_node (leaderID : String) :
    (s.follow leaderID).node =
      ({ s.node with
          role := .follower
          leaderID := leaderID
          waiters := if s.node.role = Role.leader then Bucket.empty else s.node.waiters
        }).stopHeartbeat.resetElectionTimer := by
  unfold Local.follow
  split <;> rfl

@[simp] theorem follow_store (leaderID : String) : (s.follow leaderID).store = s.store := by
  unfold Local.follow
  split <;> rfl

@[simp] theorem follow_calls (leaderID : String) : (s.follow leaderID).calls = s.calls := by
  unfold Local.follow
  split <;> rfl

@[simp] theorem follow_proposals (leaderID : String) :
    (s.follow leaderID).proposals = s.proposals := by
  unfold Local.follow
  split <;> rfl

@[simp] theorem follow_currentTerm (leaderID : String) :
    (s.follow leaderID).node.currentTerm = s.node.currentTerm := by
  rw [follow_node]
  rfl

@[simp] theorem follow_role (leaderID : String) : (s.follow leaderID).node.role = .follower := by
  rw [follow_node]
  rfl

theorem advanceTerm_currentTerm (term : Nat) (reached : s.node.currentTerm ≤ term) :
    (s.advanceTerm term).node.currentTerm = term := by
  unfold Local.advanceTerm
  split
  · rfl
  · omega

end Fields

inductive Move (apply : Option (ApplyFunc σ ρ)) (plan : Plan) (inp : Input) :
    Local σ ρ → Local σ ρ → Prop
  | timers (s : Local σ ρ) (electionCh heartbeatCh : Option Nat) (timers : Nat) :
      Move apply plan inp s (s.onNode fun n =>
        { n with electionCh := electionCh, heartbeatCh := heartbeatCh, timers := timers })
  | stepDown (s : Local σ ρ) (term : Nat) (leaderID : String) (reached : s.node.currentTerm ≤ term)
      (told : term = inp.term)
      (named : leaderID ≠ "" →
        ∃ req, inp = .appendRequest req ∧ req.term = term ∧ req.leaderID = leaderID) :
      Move apply plan inp s ((s.advanceTerm term).follow leaderID)
  | stand (s : Local σ ρ) (due : inp = .timeout s.node.currentTerm)
      (notLeader : s.node.role ≠ .leader) :
      Move apply plan inp s s.stand
  | grant (s : Local σ ρ) (req : RequestVoteRequest) (asked : inp = .voteRequest req)
      (current : req.term = s.node.currentTerm)
      (free : s.node.votedFor = "" ∨ s.node.votedFor = req.candidateID)
      (upToDate : s.node.candidateLogUpToDate req.lastLogTerm req.lastLogIndex = true) :
      Move apply plan inp s (s.grant req.candidateID)
  | promote (s : Local σ ρ) (candidateID : String) (resp : RequestVoteResponse)
      (answered : inp = .counted candidateID resp) (candidate : s.node.role = .candidate)
      (won : s.node.quorum ≤ s.node.votesGranted) :
      Move apply plan inp s (s.onNode Node.becomeLeader)
  | assertLeadership (s : Local σ ρ) (leader : s.node.role = .leader) :
      Move apply plan inp s s.assertLeadership
  | propose (s : Local σ ρ) (command : List UInt8) (asked : inp = .proposal command)
      (leader : s.node.role = .leader) : Move apply plan inp s (s.propose command)
  | overwrite (s : Local σ ρ) (req : AppendEntriesRequest) (truncateFrom : Nat)
      (toAppend : List LogEntry) (asked : inp = .appendRequest req)
      (current : s.node.currentTerm = req.term) (follower : s.node.role = .follower)
      (held : HoldsPrevious req s)
      (merged : reconcile s.store req.prevLogIndex req.entries = (truncateFrom, toAppend))
      (needed : toAppend ≠ []) :
      Move apply plan inp s (s.overwrite truncateFrom toAppend).refresh
  | tear (s : Local σ ρ) (truncateFrom : Nat) (toAppend : List LogEntry) (torn : plan.mayTear) :
      Move apply plan inp s (s.overwrite truncateFrom toAppend)
  | commit (s : Local σ ρ) (index : Nat) (rule : CommitRule inp s index) :
      Move apply plan inp s ((s.setCommit index).onStore (·.setCommitIndex index))
  | commitUnsaved (s : Local σ ρ) (index : Nat) (rule : CommitRule inp s index)
      (failed : plan.mayFail .setCommitIndex) : Move apply plan inp s (s.setCommit index)
  | applyNext (s after : Local σ ρ) (entry : LogEntry) (result : Option ρ)
      (behind : s.node.lastApplied < s.node.commitIndex)
      (found : s.store.entry (s.node.lastApplied + 1) = some entry)
      (applied : applyStep apply (s.node.lastApplied + 1) entry.term entry s = .ok (result, after)) :
      Move apply plan inp s (after.deliver (s.node.lastApplied + 1) result)
  | recordMatch (s : Local σ ρ) (peer : String) (term : Nat) (resp : AppendEntriesResponse)
      (answered : inp = .appendReply peer term resp) (leader : s.node.role = .leader)
      (current : term = s.node.currentTerm) (success : resp.success = true) :
      Move apply plan inp s (s.onNode (QuorumLimiter.recordMatch peer resp.matchIndex))
  | backup (s : Local σ ρ) (peer : String) (term : Nat) (resp : AppendEntriesResponse) (next : Nat)
      (answered : inp = .appendReply peer term resp) (leader : s.node.role = .leader)
      (current : term = s.node.currentTerm) (rejected : resp.success = false)
      (hinted : next = hintedNext s resp ∨ plan.mayFail .entry) :
      Move apply plan inp s (s.onNode (setNextIndex peer next))
  | append (s : Local σ ρ) (peer : String) (prevTerm : Nat) (leader : s.node.role = .leader)
      (known : peer ∈ s.node.peers ∨ ∃ term resp, inp = .appendReply peer term resp)
      (previous : prevTerm = s.store.termBefore (s.node.nextFor peer - 1) ∨ plan.mayFail .entry) :
      Move apply plan inp s (s.append peer prevTerm)
  | deregister (s : Local σ ρ) (index : Nat) (asked : inp = .deregister index) :
      Move apply plan inp s (s.onNode fun n => { n with waiters := n.waiters.delete index })

abbrev Moves (apply : Option (ApplyFunc σ ρ)) (plan : Plan) (inp : Input) :
    Local σ ρ → Local σ ρ → Prop :=
  ReflTransGen (Move apply plan inp)

/-- What survives the process and what it already sent out. -/
def SameOutside (s t : Local σ ρ) : Prop :=
  s.store = t.store ∧ s.calls = t.calls ∧ s.proposals = t.proposals ∧ s.outcomes = t.outcomes

theorem sameOutside_refl (s : Local σ ρ) : SameOutside s s := ⟨rfl, rfl, rfl, rfl⟩

def Crashed (apply : Option (ApplyFunc σ ρ)) (plan : Plan) (inp : Input)
    (origin s : Local σ ρ) : Prop :=
  ∃ reached, Moves apply plan inp origin reached ∧ SameOutside reached s

/-- Run from `s`, the handler only extends the path of moves from `origin`. -/
def Traced {α : Type} (apply : Option (ApplyFunc σ ρ)) (plan : Plan) (inp : Input)
    (origin : Local σ ρ) (handler : Handler σ ρ α) (post : α → Local σ ρ → Prop)
    (calls : List StoreOp) (s : Local σ ρ) : Prop :=
  handler.wp plan (fun value _ after => Moves apply plan inp origin after ∧ post value after)
    (Crashed apply plan inp origin) calls s

end QuorumLimiter
