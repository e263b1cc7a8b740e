import QuorumLimiter.Raft.Waiters

/-!
What an event does, seen as one walk of one node. An event ends the state of a
caller, takes a node down, or takes one node along moves on one input, which came with
the event. Facts that depend on the event, and not only on the turns it is made of,
are proved along this walk.
-/

namespace QuorumLimiter

open Relation

variable {σ ρ α : Type}

/-- Where a handler of node `id` sets out: from the node as it is, after a vote was
counted, or from what `recover` read. -/
inductive Outset (c : Cluster σ ρ) (w : World σ ρ) (id : String) : Input → Local σ ρ → Prop
  | running (inp : Input) (node : Node) (up : (w.members id).node = some node) :
      Outset c w id inp (w.view id node)
  | counted (resp : RequestVoteResponse) (node : Node) (up : (w.members id).node = some node) :
      Outset c w id (.counted id resp) (w.view id node).count
  | woken (clusterID : String) :
      Outset c w id .other ((w.view id (c.config id).blank).wake clusterID)

/-- Node `id` has come to `s`, or has gone down there; answers, settled calls and the
state of one caller may have changed besides. -/
structure Landed (w : World σ ρ) (id : String) (s : Local σ ρ) (after : World σ ρ) : Prop where
  members : after.members = (w.put id s).members ∨ after.members = ((w.put id s).down id).members
  calls : after.calls = s.calls
  proposals : ∀ k, registration after.proposals k = registration s.proposals k

/-- The input came with the event: the request it delivered, the answer it handed over,
the command it proposed. -/
def Given (w : World σ ρ) (event : Event) (id : String) : Input → Prop
  | .appendRequest req => ∃ (k : Nat) (call : Call), event = .deliver k ∧
      w.calls[k]? = some call ∧ call.peer = id ∧ call.request = .append req
  | .appendReply peer term resp => ∃ (k j : Nat) (call : Call) (node : Node),
      event = .respond k j ∧ w.calls[k]? = some call ∧ w.replies[j]? = some (k, .append resp) ∧
        call.source = id ∧ call.peer = peer ∧ call.term = term ∧
        (w.members id).node = some node ∧ resp.term ≤ node.currentTerm
  | .proposal command => event = .propose id command
  | _ => True

inductive Walked (c : Cluster σ ρ) (plan : Plan) (w : World σ ρ) (event : Event) :
    World σ ρ → Prop
  | caller (k : Nat) (state : ProposalState ρ) : Walked c plan w event (w.setProposal k state)
  | crash (id : String) : Walked c plan w event (w.down id)
  | moved (id : String) (inp : Input) (origin s : Local σ ρ) (after : World σ ρ)
      (outset : Outset c w id inp origin) (path : Moves c.apply plan inp origin s)
      (landed : Landed w id s after) (given : Given w event id inp) : Walked c plan w event after

section Handlers

variable {c : Cluster σ ρ} {plan : Plan} {w after : World σ ρ} {id : String}

theorem landed_put (w : World σ ρ) (id : String) (s : Local σ ρ) : Landed w id s (w.put id s) :=
  ⟨Or.inl rfl, rfl, fun _ => rfl⟩

theorem landed_down (w : World σ ρ) (id : String) (s : Local σ ρ) :
    Landed w id s ((w.put id s).down id) :=
  ⟨Or.inr rfl, rfl, fun _ => rfl⟩

theorem landed_each {P : Node → Prop} {s : Local σ ρ} (each : w.Each P) (holds : P s.node)
    (landed : Landed w id s after) : after.Each P := by
  intro other node up
  rcases landed.members with same | same <;> rw [same] at up
  · exact each_put each id s holds other node up
  · exact each_fallen each id s other node up

theorem traced_landed {inp : Input} {handler : Handler σ ρ α} {post : α → Local σ ρ → Prop}
    {result : Option α} {origin s : Local σ ρ}
    (traced : Traced c.apply plan inp origin handler post [] s)
    (ran : (match handler.run plan [] s with
      | (some value, _, t) => some (some value, w.put id t)
      | (none, _, t) => some (none, (w.put id t).down id)) = some (result, after)) :
    ∃ t, Moves c.apply plan inp origin t ∧ Landed w id t after := by
  simp only [Traced, Proc.wp] at traced
  split at traced
  · rename_i value _ t run
    simp only [run, Option.some.injEq, Prod.mk.injEq] at ran
    obtain ⟨_, rfl⟩ := ran
    exact ⟨t, traced.1, landed_put w id t⟩
  · rename_i _ t run
    simp only [run, Option.some.injEq, Prod.mk.injEq] at ran
    obtain ⟨_, rfl⟩ := ran
    obtain ⟨reached, path, same⟩ := traced
    refine ⟨reached, path, ?_⟩
    rw [← down_sameOutside id reached t same]
    exact landed_down w id reached

theorem run_landed (inp : Input) {handler : Handler σ ρ α} {post : α → Local σ ρ → Prop}
    {result : Option α}
    (traced : ∀ node, (w.members id).node = some node →
      Traced c.apply plan inp (w.view id node) handler post [] (w.view id node))
    (ran : w.run plan id handler = some (result, after)) :
    ∃ node s, (w.members id).node = some node ∧ Moves c.apply plan inp (w.view id node) s ∧
      Landed w id s after := by
  unfold World.run at ran
  cases up : (w.members id).node with
  | none => simp [up] at ran
  | some node =>
      simp only [up] at ran
      obtain ⟨s, path, landed⟩ := traced_landed (traced node up) ran
      exact ⟨node, s, rfl, path, landed⟩

theorem run_walked (event : Event) (inp : Input) {handler : Handler σ ρ α}
    {post : α → Local σ ρ → Prop} (given : Given w event id inp)
    (traced : ∀ node, (w.members id).node = some node →
      Traced c.apply plan inp (w.view id node) handler post [] (w.view id node))
    (ran : (w.run plan id handler).map Prod.snd = some after) : Walked c plan w event after := by
  obtain ⟨⟨result, reached⟩, returned, rfl⟩ := Option.map_eq_some_iff.mp ran
  obtain ⟨node, s, up, path, landed⟩ := run_landed inp traced returned
  exact Walked.moved id inp _ s reached (Outset.running inp node up) path landed given

theorem deliver_walked {k : Nat} {call : Call} (sent : w.calls[k]? = some call)
    (delivered : c.deliver plan w k call = some after) : Walked c plan w (.deliver k) after := by
  unfold Cluster.deliver at delivered
  split at delivered
  · rename_i req asked
    obtain ⟨⟨result, reached⟩, ran, rfl⟩ := Option.map_eq_some_iff.mp delivered
    obtain ⟨node, s, up, path, landed⟩ := run_landed (.voteRequest req)
      (fun node _ => traced_handleRequestVote req rfl) ran
    refine Walked.moved call.peer _ _ s _ (Outset.running _ node up) path ?_ trivial
    cases result <;> exact ⟨landed.members, landed.calls, landed.proposals⟩
  · rename_i req asked
    obtain ⟨⟨result, reached⟩, ran, rfl⟩ := Option.map_eq_some_iff.mp delivered
    obtain ⟨node, s, up, path, landed⟩ := run_landed (.appendRequest req)
      (fun node _ => traced_handleAppendEntries req rfl) ran
    refine Walked.moved call.peer _ _ s _ (Outset.running _ node up) path ?_
      ⟨k, call, rfl, sent, rfl, asked⟩
    cases result <;> exact ⟨landed.members, landed.calls, landed.proposals⟩

theorem traced_handleAppendResponse_above {apply : Option (ApplyFunc σ ρ)} {s : Local σ ρ}
    {calls : List StoreOp} (peer : String) (term : Nat) (resp : AppendEntriesResponse)
    (above : s.node.currentTerm < resp.term) :
    Traced apply plan (.uncounted ⟨0, "", resp.term, false⟩) s
      (handleAppendResponse apply peer term resp false) (fun _ _ => True) calls s := by
  apply traced_get
  dsimp only
  rw [if_neg (by simp), if_pos above]
  apply traced_bind (traced_becomeFollower resp.term "" (by omega) rfl (by simp))
  intro _ _ _ _
  exact traced_pure ReflTransGen.refl trivial

theorem respond_walked {event : Event} {k : Nat} {call : Call} {resp : Option Response}
    (answered : ∀ reply, resp = some (.append reply) → ∃ j, event = .respond k j ∧
      w.calls[k]? = some call ∧ w.replies[j]? = some (k, .append reply))
    (responded : c.respond plan (w.settle k) call resp = some after) :
    Walked c plan w event after := by
  have settled {inp : Input} {origin : Local σ ρ} {s : Local σ ρ}
      (path : Moves c.apply plan inp origin s) (landed : Landed (w.settle k) call.source s after)
      (outset : Outset c w call.source inp origin) (given : Given w event call.source inp) :
      Walked c plan w event after :=
    Walked.moved call.source inp origin s after outset path
      ⟨landed.members, landed.calls, landed.proposals⟩ given
  unfold Cluster.respond at responded
  split at responded
  · rename_i req reply asked
    obtain ⟨⟨result, reached⟩, returned, rfl⟩ := Option.map_eq_some_iff.mp responded
    unfold World.run at returned
    cases up : ((w.settle k).members call.source).node with
    | none => simp [up] at returned
    | some node =>
        simp only [up] at returned
        by_cases counts : CountsVote call.term reply false (w.view call.source node)
        · obtain ⟨s, path, landed⟩ := traced_landed (traced_handleVoteResponse_counted
            call.source call.term reply false rfl counts) returned
          exact settled path landed (Outset.counted reply node up) trivial
        · obtain ⟨s, path, landed⟩ := traced_landed (traced_handleVoteResponse_ignored
            call.term reply false rfl counts) returned
          exact settled path landed (Outset.running _ node up) trivial
  · obtain ⟨⟨result, reached⟩, returned, rfl⟩ := Option.map_eq_some_iff.mp responded
    obtain ⟨node, s, up, path, landed⟩ := run_landed (.uncounted ⟨0, "", 0, false⟩)
      (fun node _ => traced_handleVoteResponse_ignored _ _ _ rfl (by simp [CountsVote])) returned
    exact settled path landed (Outset.running _ node up) trivial
  · rename_i req reply asked
    obtain ⟨⟨result, reached⟩, returned, rfl⟩ := Option.map_eq_some_iff.mp responded
    unfold World.run at returned
    cases up : ((w.settle k).members call.source).node with
    | none => simp [up] at returned
    | some node =>
        simp only [up] at returned
        by_cases above : node.currentTerm < reply.term
        · obtain ⟨s, path, landed⟩ := traced_landed
            (traced_handleAppendResponse_above call.peer call.term reply above) returned
          exact settled path landed (Outset.running _ node up) trivial
        · obtain ⟨s, path, landed⟩ := traced_landed
            (traced_handleAppendResponse call.peer call.term reply false rfl) returned
          obtain ⟨j, same, sent, replied⟩ := answered reply rfl
          exact settled path landed (Outset.running _ node up) ⟨k, j, call, node, same, sent, replied,
            rfl, rfl, rfl, up, Nat.le_of_not_lt above⟩
  · obtain ⟨⟨result, reached⟩, returned, rfl⟩ := Option.map_eq_some_iff.mp responded
    obtain ⟨node, s, up, path, landed⟩ := run_landed .other
      (fun node _ => traced_handleAppendResponse_lost _ _ _) returned
    exact settled path landed (Outset.running _ node up) trivial
  · contradiction

theorem restart_walked (id : String) :
    Walked c plan w (.restart id) (c.restart plan w id) := by
  have idle : (w.view id (c.config id).blank).node.waiters = Bucket.empty := rfl
  have spec : Proc.wp (start c.apply) plan _ _ [] _ := wp_start idle
  have fallen (s : Local σ ρ) (woken : Woken c.apply plan (w.view id (c.config id).blank) s) :
      Walked c plan w (.restart id) ((w.put id s).down id) := by
    obtain ⟨clusterID, reached, path, same⟩ := woken
    rw [← down_sameOutside id reached s same]
    exact Walked.moved id .other _ reached _ (Outset.woken clusterID) path
      (landed_down w id reached) trivial
  simp only [Proc.wp] at spec
  unfold Cluster.restart
  split at spec
  · rename_i result _ s run
    rw [run]
    cases result with
    | error error => exact fallen s spec.1
    | ok _ =>
        obtain ⟨clusterID, path⟩ := spec.2 rfl
        exact Walked.moved id .other _ s _ (Outset.woken clusterID) path (landed_put w id s) trivial
  · rename_i _ s run
    rw [run]
    exact fallen s spec

end Handlers

/-- Every event is a walk of one node, or ends a call or a node. -/
theorem step_walked {c : Cluster σ ρ} {plan : Plan} {w after : World σ ρ} {event : Event}
    (stepped : c.step plan w event = some after) : Walked c plan w event after := by
  cases step_occurs stepped with
  | electionTimeout id node _ up ran =>
      have due : ∀ other, (w.members id).node = some other →
          Traced c.apply plan (.timeout node.currentTerm) (w.view id other) onElectionTimeout
            (fun _ _ => True) [] (w.view id other) := by
        intro other same
        obtain rfl : node = other := Option.some.inj (up.symm.trans same)
        exact traced_onElectionTimeout rfl
      exact run_walked _ (.timeout node.currentTerm) trivial due ran
  | heartbeat id _ ran => exact run_walked _ .other trivial (fun node _ => traced_onHeartbeat) ran
  | deliver k call _ sent delivered => exact deliver_walked sent delivered
  | respond k j call resp _ sent answered pending responded =>
      refine respond_walked (fun reply same => ⟨j, rfl, sent, ?_⟩) responded
      rw [answered, ← Option.some.inj same]
  | lose k call _ sent pending lost => exact respond_walked (by rintro _ ⟨⟩) lost
  | propose id command _ ran =>
      exact run_walked _ (.proposal command) rfl
        (fun node _ => traced_handlePropose command rfl) ran
  | deregister k id entry result reached ran =>
      obtain ⟨node, s, up, path, landed⟩ :=
        run_landed (.deregister entry.index) (fun node _ => traced_deregister _ rfl) ran
      refine Walked.moved id _ _ s _ (Outset.running _ node up) path
        ⟨landed.members, landed.calls, fun j => ?_⟩ trivial
      exact (registration_modify _ _ _ _).trans (landed.proposals j)
  | caller _ k state earned => exact Walked.caller k state
  | crash id => exact Walked.crash id
  | restart id member stopped => exact restart_walked id

end QuorumLimiter
