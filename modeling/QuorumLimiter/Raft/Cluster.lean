import Mathlib.Logic.Function.Basic
import QuorumLimiter.Raft.Tracing

/-!
The cluster: its nodes, the RPCs they sent, the answers given so far, and the
callers of `Propose`. A request may be delivered any number of times or never, a
call hands back at most one answer, and a crashed node keeps only its store.
-/

namespace QuorumLimiter

structure Cluster (σ ρ : Type) where
  ids : List String
  distinct : ids.Nodup
  named : ∀ id ∈ ids, id ≠ ""
  clusterID : String
  apply : Option (ApplyFunc σ ρ)
  app : σ

structure Member (σ : Type) where
  node : Option Node
  store : Store σ

structure World (σ ρ : Type) where
  members : String → Member σ
  calls : List Call
  replies : List (Nat × Response)
  /-- Calls that have handed back an answer or can no longer do so. -/
  settled : List Nat
  proposals : List (Proposal ρ)
  outcomes : List (Nat × Outcome ρ)

inductive Event
  | electionTimeout (id : String)
  | heartbeat (id : String)
  | deliver (call : Nat)
  | respond (call reply : Nat)
  | lose (call : Nat)
  | propose (id : String) (command : List UInt8)
  | collect (proposal : Nat)
  | expire (proposal : Nat)
  | deregister (proposal : Nat)
  | abandon (proposal : Nat)
  | abort (proposal : Nat)
  | crash (id : String)
  | restart (id : String)
  deriving DecidableEq, Repr

variable {σ ρ α : Type}

namespace World

def view (w : World σ ρ) (id : String) (node : Node) : Local σ ρ where
  node := node
  store := (w.members id).store
  calls := w.calls
  proposals := w.proposals
  outcomes := w.outcomes

def put (w : World σ ρ) (id : String) (s : Local σ ρ) : World σ ρ :=
  { w with
    members := Function.update w.members id ⟨some s.node, s.store⟩
    calls := s.calls
    proposals := s.proposals
    outcomes := s.outcomes }

/-- The process ends: memory is lost, and its RPC goroutines with it. -/
def down (w : World σ ρ) (id : String) : World σ ρ :=
  { w with
    members := Function.update w.members id ⟨none, (w.members id).store⟩
    settled := w.settled ++
      (List.range w.calls.length).filter fun k => w.calls[k]?.map (·.source) == some id }

def settle (w : World σ ρ) (call : Nat) : World σ ρ := { w with settled := w.settled ++ [call] }

def answer (w : World σ ρ) (call : Nat) (resp : Response) : World σ ρ :=
  { w with replies := w.replies ++ [(call, resp)] }

def setProposal (w : World σ ρ) (k : Nat) (state : ProposalState ρ) : World σ ρ :=
  { w with proposals := w.proposals.modify k fun p => { p with state := state } }

def run (w : World σ ρ) (plan : Plan) (id : String) (handler : Handler σ ρ α) :
    Option (Option α × World σ ρ) :=
  match (w.members id).node with
  | none => none
  | some node =>
      match handler.run plan [] (w.view id node) with
      | (some value, _, s) => some (some value, w.put id s)
      | (none, _, s) => some (none, (w.put id s).down id)

end World

namespace Cluster

variable (c : Cluster σ ρ)

def config (id : String) : Config := ⟨id, c.clusterID, c.ids⟩

def init : World σ ρ where
  members _ := ⟨none, Store.migrated c.app⟩
  calls := []
  replies := []
  settled := []
  proposals := []
  outcomes := []

def deliver (plan : Plan) (w : World σ ρ) (k : Nat) (call : Call) : Option (World σ ρ) :=
  match call.request with
  | .vote req =>
      (w.run plan call.peer (handleRequestVote req)).map fun (resp, w) =>
        match resp with
        | none => w
        | some resp => w.answer k (.vote resp)
  | .append req =>
      (w.run plan call.peer (handleAppendEntries c.apply req)).map fun (resp, w) =>
        match resp with
        | none => w
        | some resp => w.answer k (.append resp)

/-- The sender's handler on an answer, or on the error of a failed call. -/
def respond (plan : Plan) (w : World σ ρ) (call : Call) (resp : Option Response) :
    Option (World σ ρ) :=
  match call.request, resp with
  | .vote _, some (.vote resp) =>
      (w.run plan call.source (handleVoteResponse call.term resp false)).map Prod.snd
  | .vote _, none =>
      (w.run plan call.source (handleVoteResponse call.term ⟨0, "", 0, false⟩ true)).map Prod.snd
  | .append _, some (.append resp) =>
      (w.run plan call.source
        (handleAppendResponse c.apply call.peer call.term resp false)).map Prod.snd
  | .append _, none =>
      (w.run plan call.source (handleAppendResponse c.apply call.peer call.term
        ⟨0, "", 0, false, 0, 0, 0⟩ true)).map Prod.snd
  | _, _ => none

def restart (plan : Plan) (w : World σ ρ) (id : String) : World σ ρ :=
  match (start c.apply).run plan [] (w.view id (c.config id).blank) with
  | (some (.ok _), _, s) => w.put id s
  | (_, _, s) => (w.put id s).down id

/-- One event under a fault plan; `none` when the event cannot happen. -/
def step (plan : Plan) (w : World σ ρ) : Event → Option (World σ ρ)
  | .electionTimeout id =>
      match (w.members id).node with
      | some node =>
          if node.electionCh.isSome then (w.run plan id onElectionTimeout).map Prod.snd else none
      | none => none
  | .heartbeat id =>
      match (w.members id).node with
      | some node =>
          if node.heartbeatCh.isSome then (w.run plan id onHeartbeat).map Prod.snd else none
      | none => none
  | .deliver k =>
      match w.calls[k]? with
      | some call => c.deliver plan w k call
      | none => none
  | .respond k j =>
      match w.calls[k]?, w.replies[j]? with
      | some call, some reply =>
          if reply.1 = k ∧ k ∉ w.settled then c.respond plan (w.settle k) call (some reply.2)
          else none
      | _, _ => none
  | .lose k =>
      match w.calls[k]? with
      | some call => if k ∉ w.settled then c.respond plan (w.settle k) call none else none
      | none => none
  | .propose id command => (w.run plan id (handlePropose command)).map Prod.snd
  | .collect k =>
      match w.proposals[k]?, w.outcomes.find? (·.1 = k) with
      | some ⟨_, _, .waiting⟩, some outcome => some (w.setProposal k (.finished outcome.2))
      | _, _ => none
  | .expire k =>
      match w.proposals[k]? with
      | some ⟨_, _, .waiting⟩ => some (w.setProposal k .expired)
      | _ => none
  | .deregister k =>
      match w.proposals[k]? with
      | some ⟨id, entry, .expired⟩ =>
          match w.run plan id (deregister entry.index) with
          | some (_, after) => some (after.setProposal k (.finished (.error .proposalTimeout)))
          | none => some (w.setProposal k (.finished (.error .proposalTimeout)))
      | _ => none
  | .abandon k =>
      match w.proposals[k]? with
      | some ⟨_, _, .waiting⟩ => some (w.setProposal k (.finished (.error .context)))
      | _ => none
  | .abort k =>
      match w.proposals[k]? with
      | some ⟨id, _, .waiting⟩ =>
          if (w.members id).node.isNone then some (w.setProposal k (.finished (.error .stopped)))
          else none
      | _ => none
  | .crash id => if (w.members id).node.isSome then some (w.down id) else none
  | .restart id =>
      if id ∈ c.ids ∧ (w.members id).node.isNone then some (c.restart plan w id) else none

def Next (allowed : Plan → Prop) (w after : World σ ρ) : Prop :=
  ∃ plan event, allowed plan ∧ c.step plan w event = some after

def Later (allowed : Plan → Prop) : World σ ρ → World σ ρ → Prop :=
  Relation.ReflTransGen (c.Next allowed)

def Reachable (allowed : Plan → Prop) (w : World σ ρ) : Prop := c.Later allowed c.init w

def steps (w : World σ ρ) : List (Plan × Event) → Option (World σ ρ)
  | [] => some w
  | (plan, event) :: rest =>
      match c.step plan w event with
      | some after => steps after rest
      | none => none

theorem steps_later {allowed : Plan → Prop} (trace : List (Plan × Event)) (w after : World σ ρ)
    (admitted : ∀ entry ∈ trace, allowed entry.1) (ran : c.steps w trace = some after) :
    c.Later allowed w after := by
  induction trace generalizing w with
  | nil =>
      cases ran
      exact Relation.ReflTransGen.refl
  | cons entry rest ih =>
      simp only [steps] at ran
      split at ran
      · rename_i middle stepped
        apply Relation.ReflTransGen.head ⟨entry.1, entry.2, admitted entry (by simp), stepped⟩
        exact ih middle (fun other member => admitted other (by simp [member])) ran
      · contradiction

end Cluster

def World.Leads (w : World σ ρ) (id : String) (term : Nat) : Prop :=
  ∃ node, (w.members id).node = some node ∧ node.role = .leader ∧ node.currentTerm = term

def smoothly (events : List Event) : List (Plan × Event) :=
  events.map fun event => (Plan.smooth, event)

theorem smoothly_later {allowed : Plan → Prop} (c : Cluster σ ρ) (events : List Event)
    (w after : World σ ρ) (admitted : allowed Plan.smooth)
    (ran : c.steps w (smoothly events) = some after) : c.Later allowed w after := by
  apply c.steps_later _ w after _ ran
  intro entry member
  obtain ⟨event, _, rfl⟩ := List.mem_map.mp member
  exact admitted

theorem smoothly_reached {β : Type} {allowed : Plan → Prop} (c : Cluster σ ρ)
    (admitted : allowed Plan.smooth) (events : List Event) (read : World σ ρ → β) {seen : β}
    (ran : (c.steps c.init (smoothly events)).map read = some seen) :
    ∃ w, c.Reachable allowed w ∧ read w = seen := by
  obtain ⟨w, ran, read⟩ := Option.map_eq_some_iff.mp ran
  exact ⟨w, smoothly_later c events _ w admitted ran, read⟩

/-- Two states of one run, known by what is read off them. -/
theorem smoothly_reaches {β γ : Type} {allowed : Plan → Prop} (c : Cluster σ ρ)
    (admitted : allowed Plan.smooth) (early more : List Event) (read : World σ ρ → β)
    (readLater : World σ ρ → γ) {seen : β} {seenLater : γ}
    (first : (c.steps c.init (smoothly early)).map read = some seen)
    (second : ((c.steps c.init (smoothly early)).bind (c.steps · (smoothly more))).map readLater =
      some seenLater) :
    ∃ w later, c.Reachable allowed w ∧ c.Later allowed w later ∧ read w = seen ∧
      readLater later = seenLater := by
  obtain ⟨w, ran, read⟩ := Option.map_eq_some_iff.mp first
  rw [ran, Option.bind_some] at second
  obtain ⟨later, reached, readLater⟩ := Option.map_eq_some_iff.mp second
  exact ⟨w, later, smoothly_later c early _ w admitted ran,
    smoothly_later c more w later admitted reached, read, readLater⟩

def World.standing (w : World σ ρ) (id : String) : Option (Role × Nat) :=
  (w.members id).node.map fun node => (node.role, node.currentTerm)

theorem leads_of_standing {w : World σ ρ} {id : String} {term : Nat}
    (standing : w.standing id = some (.leader, term)) : w.Leads id term := by
  obtain ⟨node, up, same⟩ := Option.map_eq_some_iff.mp standing
  simp only [Prod.mk.injEq] at same
  exact ⟨node, up, same.1, same.2⟩

theorem three_distinct : ["a", "b", "c"].Nodup := by decide

theorem three_named : ∀ id ∈ ["a", "b", "c"], id ≠ "" := by decide

/-- Three nodes that replicate a log and apply nothing. -/
def trio : Cluster Unit Unit where
  ids := ["a", "b", "c"]
  distinct := three_distinct
  named := three_named
  clusterID := "trio"
  apply := none
  app := ()

/-- Two nodes start, and the first is elected in term 1 by the second. -/
def electFirst : List Event :=
  [.restart "a", .restart "b", .electionTimeout "a", .deliver 0, .respond 0 0]

/-- The first leader commits its first entry, on the answer of the second node. -/
def commitFirst : List Event := electFirst ++ [.deliver 2, .respond 2 1]

end QuorumLimiter
