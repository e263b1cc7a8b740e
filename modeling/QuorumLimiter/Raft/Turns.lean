import QuorumLimiter.Lib.Simulation
import QuorumLimiter.Raft.Cluster

/-!
Cluster events broken into turns: one move of one node, one answer, one vote
counted, one node down or woken. `step_turns` says that an event is a sequence of
turns on one input, whatever its fault plan, so what every turn preserves every
run preserves.
-/

namespace QuorumLimiter

open Relation

variable {σ ρ α : Type}

def Call.isVote (call : Call) : Prop := ∃ req, call.request = .vote req

/-- What a handler was given came out of the network. -/
def Arrived (w : World σ ρ) (id : String) : Input → Prop
  | .voteRequest req =>
      ∃ (k : Nat) (call : Call), w.calls[k]? = some call ∧ call.peer = id ∧ call.request = .vote req
  | .appendRequest req =>
      ∃ (k : Nat) (call : Call), w.calls[k]? = some call ∧ call.peer = id ∧ call.request = .append req
  | .appendReply peer term resp =>
      ∃ (k : Nat) (call : Call) (req : AppendEntriesRequest), w.calls[k]? = some call ∧
        call.source = id ∧ call.peer = peer ∧ call.term = term ∧ call.request = .append req ∧
          (k, .append resp) ∈ w.replies
  | .counted candidateID _ => candidateID = id
  | _ => True

inductive Turn (c : Cluster σ ρ) (plan : Plan) (inp : Input) : World σ ρ → World σ ρ → Prop
  | move (w : World σ ρ) (id : String) (node : Node) (s : Local σ ρ)
      (up : (w.members id).node = some node) (arrived : Arrived w id inp)
      (move : Move c.apply plan inp (w.view id node) s) : Turn c plan inp w (w.put id s)
  | answerVote (w : World σ ρ) (k : Nat) (call : Call) (req : RequestVoteRequest)
      (resp : RequestVoteResponse) (node : Node) (sent : w.calls[k]? = some call)
      (asked : call.request = .vote req) (up : (w.members call.peer).node = some node)
      (answer : VoteAnswer req resp (w.view call.peer node)) :
      Turn c plan inp w (w.answer k (.vote resp))
  | answerAppend (w : World σ ρ) (k : Nat) (call : Call) (req : AppendEntriesRequest)
      (resp : AppendEntriesResponse) (node : Node) (sent : w.calls[k]? = some call)
      (asked : call.request = .append req) (up : (w.members call.peer).node = some node)
      (answer : AppendAnswer req resp (w.view call.peer node)) :
      Turn c plan inp w (w.answer k (.append resp))
  | settle (w : World σ ρ) (k : Nat) : Turn c plan inp w (w.settle k)
  | count (w : World σ ρ) (k : Nat) (call : Call) (req : RequestVoteRequest)
      (resp : RequestVoteResponse) (node : Node) (sent : w.calls[k]? = some call)
      (asked : call.request = .vote req) (answered : (k, .vote resp) ∈ w.replies)
      (pending : k ∉ w.settled) (up : (w.members call.source).node = some node)
      (given : inp = .other)
      (counts : CountsVote call.term resp false (w.view call.source node)) :
      Turn c plan inp w ((w.settle k).put call.source (w.view call.source node).count)
  | wake (w : World σ ρ) (id clusterID : String) (member : id ∈ c.ids)
      (stopped : (w.members id).node = none) (given : inp = .restart) :
      Turn c plan inp w (w.put id ((w.view id (c.config id).blank).wake clusterID))
  | down (w : World σ ρ) (id : String) : Turn c plan inp w (w.down id)
  | proposal (w : World σ ρ) (k : Nat) (state : ProposalState ρ)
      (earned : ∀ result, state = .finished (.ok result) → (k, .ok result) ∈ w.outcomes) :
      Turn c plan inp w (w.setProposal k state)

abbrev Turns (c : Cluster σ ρ) (plan : Plan) (inp : Input) : World σ ρ → World σ ρ → Prop :=
  ReflTransGen (Turn c plan inp)

section Views

variable (w : World σ ρ) (id : String) (s t : Local σ ρ)

@[simp] theorem put_calls : (w.put id s).calls = s.calls := rfl

@[simp] theorem put_replies : (w.put id s).replies = w.replies := rfl

@[simp] theorem put_settled : (w.put id s).settled = w.settled := rfl

@[simp] theorem put_proposals : (w.put id s).proposals = s.proposals := rfl

@[simp] theorem put_outcomes : (w.put id s).outcomes = s.outcomes := rfl

@[simp] theorem put_member : (w.put id s).members id = ⟨some s.node, s.store⟩ := by
  simp [World.put]

theorem put_member_ne (other : String) (different : other ≠ id) :
    (w.put id s).members other = w.members other := by
  simp [World.put, different]

@[simp] theorem put_view : (w.put id s).view id s.node = s := by
  simp [World.view]

@[simp] theorem put_put : (w.put id s).put id t = w.put id t := by
  simp [World.put]

theorem put_self (node : Node) (up : (w.members id).node = some node) :
    w.put id (w.view id node) = w := by
  have same : Function.update w.members id ⟨some node, (w.members id).store⟩ = w.members := by
    rw [← up]
    exact Function.update_eq_self id w.members
  simp only [World.put, World.view, same]

end Views

section Each

variable {w : World σ ρ} {P : Node → Prop}

/-- The property holds of every node that is up. -/
def World.Each (w : World σ ρ) (P : Node → Prop) : Prop :=
  ∀ id node, (w.members id).node = some node → P node

theorem each_put (each : w.Each P) (id : String) (s : Local σ ρ) (holds : P s.node) :
    (w.put id s).Each P := by
  intro other node up
  by_cases self : other = id
  · rw [self, put_member] at up
    cases up
    exact holds
  · rw [put_member_ne _ _ _ _ self] at up
    exact each other node up

theorem each_down {id : String} (each : ∀ other node, other ≠ id →
    (w.members other).node = some node → P node) : (w.down id).Each P := by
  intro other node up
  by_cases self : other = id
  · simp [World.down, self] at up
  · simp only [World.down, Function.update_of_ne self] at up
    exact each other node self up

theorem each_fallen (each : w.Each P) (id : String) (s : Local σ ρ) :
    ((w.put id s).down id).Each P := by
  apply each_down
  intro other node self up
  rw [put_member_ne _ _ _ _ self] at up
  exact each other node up

end Each

section Growth

variable {apply : Option (ApplyFunc σ ρ)} {plan : Plan} {inp : Input} {s t : Local σ ρ}

theorem advanceTerm_calls (term : Nat) : (s.advanceTerm term).calls = s.calls := by
  unfold Local.advanceTerm
  split <;> rfl

theorem deliver_calls (index : Nat) (result : Option ρ) :
    (s.deliver index result).calls = s.calls := by
  unfold Local.deliver
  split <;> rfl

theorem move_calls (move : Move apply plan inp s t) : s.calls <+: t.calls := by
  cases move with
  | stand => exact List.prefix_append _ _
  | append => exact List.prefix_append _ _
  | stepDown term leaderID =>
      simp [follow_calls, advanceTerm_calls]
  | applyNext after entry result _ _ applied =>
      obtain ⟨_, _, rfl⟩ := applyStep_facts applied
      rw [deliver_calls]
      exact List.prefix_rfl
  | _ => exact List.prefix_rfl

theorem getElem?_grown {items more : List α} (grows : items <+: more) {k : Nat} {item : α}
    (found : items[k]? = some item) : more[k]? = some item := by
  obtain ⟨rest, rfl⟩ := grows
  rw [List.getElem?_append_left (List.getElem?_eq_some_iff.mp found).1, found]

theorem arrived_put {inp : Input} {w : World σ ρ} {id : String} (arrived : Arrived w id inp)
    (grows : w.calls <+: s.calls) : Arrived (w.put id s) id inp := by
  cases inp with
  | voteRequest req =>
      obtain ⟨k, call, found, rest⟩ := arrived
      exact ⟨k, call, getElem?_grown grows found, rest⟩
  | appendRequest req =>
      obtain ⟨k, call, found, rest⟩ := arrived
      exact ⟨k, call, getElem?_grown grows found, rest⟩
  | appendReply peer term resp =>
      obtain ⟨k, call, req, found, rest⟩ := arrived
      exact ⟨k, call, req, getElem?_grown grows found, rest⟩
  | counted candidateID resp => exact arrived
  | _ => trivial

theorem moves_turns {c : Cluster σ ρ} {w : World σ ρ} {id : String} {node : Node}
    (up : (w.members id).node = some node) (arrived : Arrived w id inp)
    (path : Moves c.apply plan inp (w.view id node) s) :
    Turns c plan inp w (w.put id s) ∧ w.calls <+: s.calls := by
  induction path with
  | refl => exact ⟨by rw [put_self w id node up], List.prefix_rfl⟩
  | tail _ move ih =>
      rename_i middle last _
      obtain ⟨turns, grows⟩ := ih
      have turn : Turn c plan inp (w.put id middle) ((w.put id middle).put id last) :=
        Turn.move _ id middle.node last (by simp) (arrived_put arrived grows)
          (by rw [put_view]; exact move)
      rw [put_put] at turn
      exact ⟨turns.tail turn, grows.trans (move_calls move)⟩

end Growth

section Events

variable {c : Cluster σ ρ} {plan : Plan} {w : World σ ρ}

theorem down_sameOutside (id : String) (s t : Local σ ρ) (same : SameOutside s t) :
    (w.put id s).down id = (w.put id t).down id := by
  obtain ⟨store, calls, proposals, outcomes⟩ := same
  simp only [World.down, World.put, store, calls, proposals, outcomes, Function.update_self,
    Function.update_idem]

theorem put_turns {id : String} {origin s : Local σ ρ} (inp : Input)
    (arrived : Arrived (w.put id origin) id inp) (path : Moves c.apply plan inp origin s) :
    Turns c plan inp (w.put id origin) (w.put id s) ∧ origin.calls <+: s.calls := by
  have up : ((w.put id origin).members id).node = some origin.node := by rw [put_member]
  have viewed : Moves c.apply plan inp ((w.put id origin).view id origin.node) s := by
    rw [put_view]
    exact path
  obtain ⟨turns, grows⟩ := moves_turns up arrived viewed
  rw [put_put] at turns
  exact ⟨turns, grows⟩

theorem crashed_turns {id : String} {origin s : Local σ ρ} (inp : Input)
    (arrived : Arrived (w.put id origin) id inp) (crashed : Crashed c.apply plan inp origin s) :
    Turns c plan inp (w.put id origin) ((w.put id s).down id) := by
  obtain ⟨reached, path, same⟩ := crashed
  rw [← down_sameOutside id reached s same]
  exact (put_turns inp arrived path).1.tail (Turn.down _ id)

/-- A traced handler takes the cluster along turns from `origin`; if it returns,
the node is still up and the handler's postcondition holds of it. -/
theorem traced_turns {id : String} {handler : Handler σ ρ α} {post : α → Local σ ρ → Prop}
    {result : Option α} {after : World σ ρ} {origin s : Local σ ρ} (inp : Input)
    (arrived : Arrived (w.put id origin) id inp)
    (traced : Traced c.apply plan inp origin handler post [] s)
    (ran : (match handler.run plan [] s with
      | (some value, _, t) => some (some value, w.put id t)
      | (none, _, t) => some (none, (w.put id t).down id)) = some (result, after)) :
    Turns c plan inp (w.put id origin) after ∧ ∀ value, result = some value →
      origin.calls <+: after.calls ∧
      ∃ node, (after.members id).node = some node ∧ post value (after.view id node) := by
  simp only [Traced, Proc.wp] at traced
  split at traced
  · rename_i value _ t run
    simp only [run, Option.some.injEq, Prod.mk.injEq] at ran
    obtain ⟨rfl, rfl⟩ := ran
    obtain ⟨turns, grows⟩ := put_turns inp arrived traced.1
    refine ⟨turns, ?_⟩
    rintro _ ⟨⟩
    exact ⟨grows, t.node, by simp, by rw [put_view]; exact traced.2⟩
  · rename_i _ t run
    simp only [run, Option.some.injEq, Prod.mk.injEq] at ran
    obtain ⟨rfl, rfl⟩ := ran
    exact ⟨crashed_turns inp arrived traced, by simp⟩

theorem run_turns {id : String} {handler : Handler σ ρ α} {post : α → Local σ ρ → Prop}
    {result : Option α} {after : World σ ρ} (inp : Input) (arrived : Arrived w id inp)
    (traced : ∀ node, (w.members id).node = some node →
      Traced c.apply plan inp (w.view id node) handler post [] (w.view id node))
    (ran : w.run plan id handler = some (result, after)) :
    Turns c plan inp w after ∧ ∀ value, result = some value →
      w.calls <+: after.calls ∧
      ∃ node, (after.members id).node = some node ∧ post value (after.view id node) := by
  unfold World.run at ran
  cases up : (w.members id).node with
  | none => simp [up] at ran
  | some node =>
      simp only [up] at ran
      have same := put_self w id node up
      have turns := traced_turns inp (by rw [same]; exact arrived) (traced node up) ran
      rw [same] at turns
      exact turns

theorem run_turns_snd {id : String} {handler : Handler σ ρ α} {after : World σ ρ} (inp : Input)
    (arrived : Arrived w id inp)
    (traced : ∀ node, (w.members id).node = some node →
      Traced c.apply plan inp (w.view id node) handler (fun _ _ => True) [] (w.view id node))
    (ran : (w.run plan id handler).map Prod.snd = some after) : Turns c plan inp w after := by
  obtain ⟨⟨result, reached⟩, returned, rfl⟩ := Option.map_eq_some_iff.mp ran
  exact (run_turns inp arrived traced returned).1

theorem deliver_turns {k : Nat} {call : Call} {after : World σ ρ} (sent : w.calls[k]? = some call)
    (delivered : c.deliver plan w k call = some after) :
    ∃ inp, inp.plain ∧ Turns c plan inp w after := by
  unfold Cluster.deliver at delivered
  split at delivered
  · rename_i req asked
    obtain ⟨⟨result, reached⟩, ran, rfl⟩ := Option.map_eq_some_iff.mp delivered
    obtain ⟨turns, returned⟩ := run_turns (.voteRequest req) ⟨k, call, sent, rfl, asked⟩
      (fun node _ => traced_handleRequestVote req rfl) ran
    refine ⟨.voteRequest req, trivial, ?_⟩
    cases result with
    | none => exact turns
    | some resp =>
        obtain ⟨grows, node, up, answer⟩ := returned resp rfl
        exact turns.tail
          (Turn.answerVote reached k call req resp node (getElem?_grown grows sent) asked up answer)
  · rename_i req asked
    obtain ⟨⟨result, reached⟩, ran, rfl⟩ := Option.map_eq_some_iff.mp delivered
    obtain ⟨turns, returned⟩ := run_turns (.appendRequest req) ⟨k, call, sent, rfl, asked⟩
      (fun node _ => traced_handleAppendEntries req rfl) ran
    refine ⟨.appendRequest req, trivial, ?_⟩
    cases result with
    | none => exact turns
    | some resp =>
        obtain ⟨grows, node, up, answer⟩ := returned resp rfl
        exact turns.tail
          (Turn.answerAppend reached k call req resp node (getElem?_grown grows sent) asked up answer)

/-- A pending call has a granted vote of the election its sender is running. -/
structure Counting (w : World σ ρ) (k : Nat) (call : Call) (resp : RequestVoteResponse)
    (node : Node) : Prop where
  sent : w.calls[k]? = some call
  asked : call.isVote
  answered : (k, .vote resp) ∈ w.replies
  pending : k ∉ w.settled
  up : (w.members call.source).node = some node
  counts : CountsVote call.term resp false (w.view call.source node)

def World.count (w : World σ ρ) (k : Nat) (call : Call) (node : Node) : World σ ρ :=
  (w.settle k).put call.source (w.view call.source node).count

/-- The node is up again, with what `recover` read from its store. -/
def World.wake (c : Cluster σ ρ) (w : World σ ρ) (id clusterID : String) : World σ ρ :=
  w.put id ((w.view id (c.config id).blank).wake clusterID)

/-- An event is a sequence of turns on one input, or one vote counted or one node
woken and a sequence of turns on that. -/
inductive EventTurns (c : Cluster σ ρ) (plan : Plan) (w after : World σ ρ) (event : Event) : Prop
  | plain (inp : Input) (plain : inp.plain) (turns : Turns c plan inp w after)
  | counted (k j : Nat) (call : Call) (resp : RequestVoteResponse) (node : Node)
      (same : event = .respond k j) (counting : Counting w k call resp node)
      (turns : Turns c plan (.counted call.source resp) (w.count k call node) after)
  | restarted (id clusterID : String) (same : event = .restart id) (member : id ∈ c.ids)
      (stopped : (w.members id).node = none) (turns : Turns c plan .other (w.wake c id clusterID) after)

theorem counted_turns {k : Nat} {call : Call} {resp : RequestVoteResponse} {node : Node}
    {after : World σ ρ} (counting : Counting w k call resp node)
    (ran : ((w.settle k).run plan call.source (handleVoteResponse call.term resp false)).map
      Prod.snd = some after) :
    Turns c plan (.counted call.source resp) (w.count k call node) after := by
  -- A counted vote is one turn, and the rest of the handler a path of moves.
  obtain ⟨⟨result, reached⟩, returned, rfl⟩ := Option.map_eq_some_iff.mp ran
  have running : ((w.settle k).members call.source).node = some node := counting.up
  simp only [World.run, running] at returned
  exact (traced_turns (.counted call.source resp) rfl
    (traced_handleVoteResponse_counted call.source call.term resp false rfl counting.counts)
    returned).1

theorem respond_turns {k j : Nat} {call : Call} {resp : Option Response} {after : World σ ρ}
    {event : Event} (sent : w.calls[k]? = some call)
    (answered : ∀ reply, resp = some reply → event = .respond k j ∧ (k, reply) ∈ w.replies)
    (pending : k ∉ w.settled) (responded : c.respond plan (w.settle k) call resp = some after) :
    EventTurns c plan w after event := by
  have settled : ∀ inp, Turn c plan inp w (w.settle k) := fun inp => Turn.settle w k
  unfold Cluster.respond at responded
  split at responded
  · rename_i req reply asked
    obtain ⟨same, replied⟩ := answered _ rfl
    cases up : (w.members call.source).node with
    | none =>
        have stopped : ((w.settle k).members call.source).node = none := up
        simp [World.run, stopped] at responded
    | some node =>
        by_cases counts : CountsVote call.term reply false (w.view call.source node)
        · have counting : Counting w k call reply node :=
            ⟨sent, ⟨req, asked⟩, replied, pending, up, counts⟩
          exact EventTurns.counted k j call reply node same counting
            (counted_turns counting responded)
        · refine EventTurns.plain (.uncounted reply) trivial
            ((run_turns_snd (.uncounted reply) trivial ?_ responded).head (settled _))
          intro other same
          obtain rfl : node = other := by
            rw [show ((w.settle k).members call.source).node = some node from up] at same
            exact Option.some.inj same
          exact traced_handleVoteResponse_ignored call.term reply false rfl counts
  · refine EventTurns.plain (.uncounted ⟨0, "", 0, false⟩) trivial
      ((run_turns_snd (.uncounted ⟨0, "", 0, false⟩) trivial ?_ responded).head (settled _))
    exact fun node _ => traced_handleVoteResponse_ignored _ _ _ rfl (by simp [CountsVote])
  · rename_i req reply asked
    refine EventTurns.plain (.appendReply call.peer call.term reply) trivial
      ((run_turns_snd _ ?_ ?_ responded).head (settled _))
    · exact ⟨k, call, req, sent, rfl, rfl, rfl, asked, (answered _ rfl).2⟩
    · exact fun node _ => traced_handleAppendResponse _ _ _ _ rfl
  · refine EventTurns.plain .other trivial
      ((run_turns_snd .other trivial ?_ responded).head (settled _))
    exact fun node _ => traced_handleAppendResponse_lost _ _ _
  · contradiction

theorem restart_turns {id : String} (member : id ∈ c.ids) (stopped : (w.members id).node = none) :
    EventTurns c plan w (c.restart plan w id) (.restart id) := by
  have idle : (w.view id (c.config id).blank).node.waiters = Bucket.empty := rfl
  have spec : Proc.wp (start c.apply) plan _ _ [] _ := wp_start idle
  have fallen : ∀ s, Woken c.apply plan (w.view id (c.config id).blank) s →
      EventTurns c plan w ((w.put id s).down id) (.restart id) := by
    rintro s ⟨clusterID, crashed⟩
    exact EventTurns.restarted id clusterID rfl member stopped
      (crashed_turns .other trivial crashed)
  simp only [Proc.wp] at spec
  unfold Cluster.restart
  split at spec
  · rename_i result _ s run
    rw [run]
    cases result with
    | error error => exact fallen s spec.1
    | ok _ =>
        obtain ⟨clusterID, path⟩ := spec.2 rfl
        exact EventTurns.restarted id clusterID rfl member stopped
          (put_turns .other trivial path).1
  · rename_i _ s run
    rw [run]
    exact fallen s spec

/-- What an event does once its guard has passed. -/
inductive Occurs (c : Cluster σ ρ) (plan : Plan) (w : World σ ρ) : Event → World σ ρ → Prop
  | electionTimeout (id : String) (node : Node) (after : World σ ρ)
      (up : (w.members id).node = some node)
      (ran : (w.run plan id onElectionTimeout).map Prod.snd = some after) :
      Occurs c plan w (.electionTimeout id) after
  | heartbeat (id : String) (after : World σ ρ)
      (ran : (w.run plan id onHeartbeat).map Prod.snd = some after) :
      Occurs c plan w (.heartbeat id) after
  | deliver (k : Nat) (call : Call) (after : World σ ρ) (sent : w.calls[k]? = some call)
      (delivered : c.deliver plan w k call = some after) : Occurs c plan w (.deliver k) after
  | respond (k j : Nat) (call : Call) (resp : Response) (after : World σ ρ)
      (sent : w.calls[k]? = some call) (answered : w.replies[j]? = some (k, resp))
      (pending : k ∉ w.settled)
      (responded : c.respond plan (w.settle k) call (some resp) = some after) :
      Occurs c plan w (.respond k j) after
  | lose (k : Nat) (call : Call) (after : World σ ρ) (sent : w.calls[k]? = some call)
      (pending : k ∉ w.settled) (lost : c.respond plan (w.settle k) call none = some after) :
      Occurs c plan w (.lose k) after
  | propose (id : String) (command : List UInt8) (after : World σ ρ)
      (ran : (w.run plan id (handlePropose command)).map Prod.snd = some after) :
      Occurs c plan w (.propose id command) after
  | deregister (k : Nat) (id : String) (entry : LogEntry) (result : Option Unit)
      (reached : World σ ρ)
      (ran : w.run plan id (deregister entry.index) = some (result, reached)) :
      Occurs c plan w (.deregister k)
        (reached.setProposal k (.finished (.error .proposalTimeout)))
  | caller (event : Event) (k : Nat) (state : ProposalState ρ)
      (earned : ∀ result, state = .finished (.ok result) → (k, .ok result) ∈ w.outcomes) :
      Occurs c plan w event (w.setProposal k state)
  | crash (id : String) : Occurs c plan w (.crash id) (w.down id)
  | restart (id : String) (member : id ∈ c.ids) (stopped : (w.members id).node = none) :
      Occurs c plan w (.restart id) (c.restart plan w id)

theorem step_occurs {event : Event} {after : World σ ρ}
    (stepped : c.step plan w event = some after) : Occurs c plan w event after := by
  cases event with
  | electionTimeout id =>
      simp only [Cluster.step] at stepped
      split at stepped
      · rename_i node up
        split at stepped
        · exact Occurs.electionTimeout id node after up stepped
        · contradiction
      · contradiction
  | heartbeat id =>
      simp only [Cluster.step] at stepped
      split at stepped
      · split at stepped
        · exact Occurs.heartbeat id after stepped
        · contradiction
      · contradiction
  | deliver k =>
      simp only [Cluster.step] at stepped
      split at stepped
      · rename_i call sent
        exact Occurs.deliver k call after sent stepped
      · contradiction
  | respond k j =>
      simp only [Cluster.step] at stepped
      split at stepped
      · rename_i call reply sent answered
        split at stepped
        · rename_i pending
          exact Occurs.respond k j call reply.2 after sent (by rw [answered, ← pending.1])
            pending.2 stepped
        · contradiction
      · contradiction
  | lose k =>
      simp only [Cluster.step] at stepped
      split at stepped
      · rename_i call sent
        split at stepped
        · rename_i pending
          exact Occurs.lose k call after sent pending stepped
        · contradiction
      · contradiction
  | propose id command => exact Occurs.propose id command after stepped
  | collect k =>
      simp only [Cluster.step] at stepped
      split at stepped
      · rename_i outcome _ found
        cases stepped
        apply Occurs.caller
        intro result finished
        have value : outcome.2 = .ok result := ProposalState.finished.inj finished
        have same : outcome.1 = k := by simpa using List.find?_some found
        rw [← value, ← same]
        exact List.mem_of_find?_eq_some found
      · contradiction
  | deregister k =>
      simp only [Cluster.step] at stepped
      split at stepped
      · split at stepped
        · rename_i result reached ran
          cases stepped
          exact Occurs.deregister k _ _ result reached ran
        · cases stepped
          exact Occurs.caller _ k _ (by simp)
      · contradiction
  | expire k | abandon k =>
      simp only [Cluster.step] at stepped
      split at stepped
      · cases stepped
        exact Occurs.caller _ k _ (by simp)
      · contradiction
  | abort k =>
      simp only [Cluster.step] at stepped
      split at stepped
      · split at stepped
        · cases stepped
          exact Occurs.caller _ k _ (by simp)
        · contradiction
      · contradiction
  | crash id =>
      simp only [Cluster.step] at stepped
      split at stepped
      · cases stepped
        exact Occurs.crash id
      · contradiction
  | restart id =>
      simp only [Cluster.step] at stepped
      split at stepped
      · rename_i allowed
        cases stepped
        exact Occurs.restart id allowed.1 (by simpa using allowed.2)
      · contradiction

/-- Every event of the cluster is a sequence of turns. -/
theorem step_turns {event : Event} {after : World σ ρ}
    (stepped : c.step plan w event = some after) : EventTurns c plan w after event := by
  cases step_occurs stepped with
  | electionTimeout id node _ up ran =>
      refine EventTurns.plain (.timeout node.currentTerm) trivial
        (run_turns_snd (.timeout node.currentTerm) trivial ?_ ran)
      intro other same
      rw [up] at same
      cases same
      exact traced_onElectionTimeout rfl
  | heartbeat id _ ran =>
      exact EventTurns.plain .other trivial
        (run_turns_snd _ trivial (fun node _ => traced_onHeartbeat) ran)
  | deliver k call _ sent delivered =>
      obtain ⟨inp, plain, turns⟩ := deliver_turns sent delivered
      exact EventTurns.plain inp plain turns
  | respond k j call resp _ sent answered pending responded =>
      refine respond_turns (j := j) sent ?_ pending responded
      rintro _ ⟨⟩
      exact ⟨rfl, List.mem_of_getElem? answered⟩
  | lose k call _ sent pending lost =>
      exact respond_turns (j := 0) sent (by rintro _ ⟨⟩) pending lost
  | propose id command _ ran =>
      exact EventTurns.plain (.proposal command) trivial
        (run_turns_snd _ trivial (fun node _ => traced_handlePropose command rfl) ran)
  | deregister k id entry result reached ran =>
      refine EventTurns.plain (.deregister entry.index) trivial ?_
      exact (run_turns (.deregister entry.index) trivial
        (fun node _ => traced_deregister _ rfl) ran).1.tail (Turn.proposal _ k _ (by simp))
  | caller _ k state earned =>
      exact EventTurns.plain .other trivial (ReflTransGen.single (Turn.proposal w k state earned))
  | crash id => exact EventTurns.plain .other trivial (ReflTransGen.single (Turn.down w id))
  | restart id member stopped => exact restart_turns member stopped

/-- What one turn does to one member. -/
inductive MemberTurn (c : Cluster σ ρ) (plan : Plan) (inp : Input) (w : World σ ρ)
    (id : String) : Member σ → Prop
  | same : MemberTurn c plan inp w id (w.members id)
  | down : MemberTurn c plan inp w id ⟨none, (w.members id).store⟩
  | wake (clusterID : String) (member : id ∈ c.ids) (stopped : (w.members id).node = none)
      (given : inp = .restart) :
      MemberTurn c plan inp w id
        ⟨some ((w.view id (c.config id).blank).wake clusterID).node,
          ((w.view id (c.config id).blank).wake clusterID).store⟩
  | count (node : Node) (up : (w.members id).node = some node) :
      MemberTurn c plan inp w id ⟨some (w.view id node).count.node, (w.members id).store⟩
  | move (node : Node) (s : Local σ ρ) (up : (w.members id).node = some node)
      (arrived : Arrived w id inp) (move : Move c.apply plan inp (w.view id node) s) :
      MemberTurn c plan inp w id ⟨some s.node, s.store⟩

theorem turn_member {inp : Input} {after : World σ ρ} (turn : Turn c plan inp w after) (id : String) :
    MemberTurn c plan inp w id (after.members id) := by
  cases turn with
  | move other node s up arrived move =>
      by_cases self : id = other
      · subst other
        rw [put_member]
        exact MemberTurn.move node s up arrived move
      · rw [put_member_ne w other s id self]
        exact MemberTurn.same
  | count k call req resp node sent asked answered pending up given counts =>
      by_cases self : id = call.source
      · subst id
        rw [put_member]
        exact MemberTurn.count node up
      · rw [put_member_ne _ _ _ id self]
        exact MemberTurn.same
  | wake other clusterID member stopped given =>
      by_cases self : id = other
      · subst self
        rw [put_member]
        exact MemberTurn.wake clusterID member stopped given
      · rw [put_member_ne w other _ id self]
        exact MemberTurn.same
  | down other =>
      by_cases self : id = other
      · subst other
        simp only [World.down, Function.update_self]
        exact MemberTurn.down
      · simp only [World.down, Function.update_of_ne self]
        exact MemberTurn.same
  | _ => exact MemberTurn.same

def Taken (c : Cluster σ ρ) (allowed : Plan → Prop) (w after : World σ ρ) : Prop :=
  ∃ plan inp, allowed plan ∧ Turn c plan inp w after

theorem turns_taken {allowed : Plan → Prop} {inp : Input} {after : World σ ρ}
    (admitted : allowed plan) (turns : Turns c plan inp w after) :
    ReflTransGen (Taken c allowed) w after :=
  ReflTransGen.mono (fun _ _ turn => ⟨plan, inp, admitted, turn⟩) _ _ turns

theorem later_taken {allowed : Plan → Prop} {after : World σ ρ} (run : c.Later allowed w after) :
    ReflTransGen (Taken c allowed) w after := by
  induction run with
  | refl => exact ReflTransGen.refl
  | tail _ next ih =>
      obtain ⟨plan, event, admitted, stepped⟩ := next
      apply ih.trans
      cases step_turns stepped with
      | plain inp _ turns => exact turns_taken admitted turns
      | counted k j call resp node _ counting turns =>
          obtain ⟨req, asked⟩ := counting.asked
          refine (turns_taken admitted turns).head ⟨plan, .other, admitted, ?_⟩
          exact Turn.count _ k call req resp node counting.sent asked counting.answered
            counting.pending counting.up rfl counting.counts
      | restarted id clusterID _ member stopped turns =>
          exact (turns_taken admitted turns).head
            ⟨plan, .restart, admitted, Turn.wake _ id clusterID member stopped rfl⟩

end Events

end QuorumLimiter
