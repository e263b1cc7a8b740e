import Mathlib.Data.Prod.Lex
import QuorumLimiter.Raft.Linearizable
import QuorumLimiter.Raft.Timers
import QuorumLimiter.Raft.Traffic

/-!
Whatever has happened, a leader can still be elected, provided its requests get
through. Nodes that are down come up again and apply what they had committed; the node
with the most up-to-date log gives up a stale leadership, times out until its term is
above all others, and every peer that hears of it votes for it.
-/

namespace QuorumLimiter

open Relation ReplicatedLog Simulation

variable {σ ρ α β : Type}

/-- Nothing goes wrong: nodes come up, timers fire, requests that can be carried arrive
and are answered, and what is proposed was asked for. -/
def Event.Calm (net : Traffic) (w : World σ ρ) : Event → Prop
  | .restart _ | .electionTimeout _ | .heartbeat _ | .respond _ _ | .collect _ => True
  | .deliver k => ∀ call, w.calls[k]? = some call → net.carries call.request
  | .propose _ command => net.asks command
  | _ => False

/-- A run of calm events in which no store call fails. -/
def Cluster.Calmly (c : Cluster σ ρ) (net : Traffic) : World σ ρ → World σ ρ → Prop :=
  ReflTransGen fun w after =>
    ∃ event, Event.Calm net w event ∧ c.step Plan.smooth w event = some after

/-- The state machine gets through every log of good commands. -/
structure Applies (c : Cluster σ ρ) (good : List UInt8 → Prop) : Prop where
  checkpoints : Checkpoints c.apply
  replays : ∀ entries, (∀ entry ∈ entries, entry.kind = .command → good entry.command) →
    ∃ after, replay c.apply 1 entries (0, c.app) = .ok after

/-- A state some run leads to in which every call so far proposed a good command. -/
structure Serving (c : Cluster σ ρ) (good : List UInt8 → Prop) (w : World σ ρ) : Prop where
  reachable : c.Reachable Plan.clean w
  asked : ∀ k origin entry, registration w.proposals k = some (origin, entry) → good entry.command

section Calm

variable {c : Cluster σ ρ} {net : Traffic} {w after : World σ ρ} {plan : Plan}

theorem calmly_step (event : Event) (calm : event.Calm net w)
    (stepped : c.step Plan.smooth w event = some after) : c.Calmly net w after :=
  ReflTransGen.single ⟨event, calm, stepped⟩

theorem serving_step {event : Event} (serving : Serving c net.asks w) (calm : event.Calm net w)
    (stepped : c.step Plan.smooth w event = some after) : Serving c net.asks after := by
  have next : c.Next Plan.clean w after := ⟨Plan.smooth, event, smooth_clean, stepped⟩
  refine ⟨serving.reachable.tail next, ?_⟩
  intro k origin entry registered
  cases old : registration w.proposals k with
  | some found =>
      have kept := registration_later (ReflTransGen.single next) old
      cases kept.symm.trans registered
      exact serving.asked k origin entry old
  | none =>
      obtain ⟨rfl, _⟩ :=
        step_registered (reachable_named serving.reachable) stepped old registered
      exact calm

theorem serving_calmly (serving : Serving c net.asks w) (run : c.Calmly net w after) :
    Serving c net.asks after := by
  induction run with
  | refl => exact serving
  | tail _ next ih =>
      obtain ⟨event, calm, stepped⟩ := next
      exact serving_step ih calm stepped

theorem calmly_later (run : c.Calmly net w after) : c.Later Plan.clean w after := by
  refine ReflTransGen.mono ?_ w after run
  rintro _ _ ⟨event, _, stepped⟩
  exact ⟨Plan.smooth, event, smooth_clean, stepped⟩

theorem ends_world {id : String} {node : Node} {handler : Handler σ ρ α}
    {post : α → Local σ ρ → Prop} (up : (w.members id).node = some node)
    (ends : Ends handler [] (w.view id node) post) :
    ∃ value s, w.run Plan.smooth id handler = some (some value, w.put id s) ∧ post value s := by
  obtain ⟨value, made, s, ran, holds⟩ := ends_run ends
  refine ⟨value, s, ?_, holds⟩
  simp only [World.run, up, ran]

end Calm

section Settled

variable {c : Cluster σ ρ} {w after : World σ ρ} {plan : Plan}

theorem moves_calls {inp : Input} {s t : Local σ ρ} (path : Moves c.apply plan inp s t) :
    s.calls <+: t.calls := by
  induction path with
  | refl => exact List.prefix_rfl
  | tail _ move ih => exact ih.trans (move_calls move)

theorem step_calls {event : Event} (stepped : c.step plan w event = some after) :
    w.calls <+: after.calls := by
  cases step_walked stepped with
  | caller k state => exact List.prefix_rfl
  | crash id => exact List.prefix_rfl
  | moved id inp origin s after outset path landed given =>
      rw [landed.calls]
      have begins : origin.calls = w.calls := by
        cases outset <;> rfl
      rw [← begins]
      exact moves_calls path

theorem down_settled (w : World σ ρ) (id : String) :
    ∀ k ∈ (w.down id).settled, k ∈ w.settled ∨ k < (w.down id).calls.length := by
  intro k member
  rcases List.mem_append.mp member with old | lost
  · exact Or.inl old
  · exact Or.inr (List.mem_range.mp (List.mem_filter.mp lost).1)

theorem run_settled {id : String} {handler : Handler σ ρ α} {result : Option α}
    (ran : w.run plan id handler = some (result, after)) :
    ∀ k ∈ after.settled, k ∈ w.settled ∨ k < after.calls.length := by
  unfold World.run at ran
  split at ran
  · contradiction
  · split at ran
    · cases ran
      exact fun k member => Or.inl member
    · cases ran
      exact down_settled _ id

theorem run_settled_snd {id : String} {handler : Handler σ ρ α}
    (ran : (w.run plan id handler).map Prod.snd = some after) :
    ∀ k ∈ after.settled, k ∈ w.settled ∨ k < after.calls.length := by
  obtain ⟨⟨result, reached⟩, returned, rfl⟩ := Option.map_eq_some_iff.mp ran
  exact run_settled returned

theorem respond_settled {call : Call} {resp : Option Response}
    (responded : c.respond plan w call resp = some after) :
    ∀ k ∈ after.settled, k ∈ w.settled ∨ k < after.calls.length := by
  unfold Cluster.respond at responded
  split at responded
  · exact run_settled_snd responded
  · exact run_settled_snd responded
  · exact run_settled_snd responded
  · exact run_settled_snd responded
  · contradiction

theorem step_settled {event : Event} (stepped : c.step plan w event = some after) :
    ∀ k ∈ after.settled, k ∈ w.settled ∨ k < w.calls.length ∨ k < after.calls.length := by
  have wider {k : Nat} (known : k ∈ w.settled ∨ k < after.calls.length) :
      k ∈ w.settled ∨ k < w.calls.length ∨ k < after.calls.length := by
    rcases known with old | made
    · exact Or.inl old
    · exact Or.inr (Or.inr made)
  have answered {call : Call} {resp : Option Response} {n : Nat} (sent : w.calls[n]? = some call)
      (responded : c.respond plan (w.settle n) call resp = some after) :
      ∀ k ∈ after.settled, k ∈ w.settled ∨ k < w.calls.length ∨ k < after.calls.length := by
    intro k member
    rcases respond_settled responded k member with old | made
    · rcases List.mem_append.mp old with old | new
      · exact Or.inl old
      · rw [List.mem_singleton.mp new]
        exact Or.inr (Or.inl (List.getElem?_eq_some_iff.mp sent).1)
    · exact Or.inr (Or.inr made)
  cases step_occurs stepped with
  | electionTimeout id node _ up ran => exact fun k member => wider (run_settled_snd ran k member)
  | heartbeat id _ ran => exact fun k member => wider (run_settled_snd ran k member)
  | deliver n call _ sent delivered =>
      intro k member
      apply wider
      unfold Cluster.deliver at delivered
      split at delivered
      · obtain ⟨⟨result, reached⟩, ran, rfl⟩ := Option.map_eq_some_iff.mp delivered
        cases result <;> exact run_settled ran k member
      · obtain ⟨⟨result, reached⟩, ran, rfl⟩ := Option.map_eq_some_iff.mp delivered
        cases result <;> exact run_settled ran k member
  | respond n j call resp _ sent replied pending responded => exact answered sent responded
  | lose n call _ sent pending lost => exact answered sent lost
  | propose id command _ ran => exact fun k member => wider (run_settled_snd ran k member)
  | deregister n id entry result reached ran =>
      exact fun k member => wider (run_settled ran k member)
  | caller => exact fun k member => Or.inl member
  | crash id => exact fun k member => wider (down_settled w id k member)
  | restart id =>
      intro k member
      apply wider
      unfold Cluster.restart at member ⊢
      split at member
      · exact Or.inl member
      · exact down_settled _ id k member

theorem settled_below (reachable : c.Reachable Plan.clean w) :
    ∀ k ∈ w.settled, k < w.calls.length := by
  induction reachable with
  | refl => rintro k ⟨⟩
  | tail before next ih =>
      obtain ⟨plan, event, _, stepped⟩ := next
      have grows := (step_calls stepped).length_le
      intro k member
      rcases step_settled stepped k member with old | inside | inside
      · have := ih k old
        omega
      · omega
      · exact inside

end Settled

section Ready

variable {c : Cluster σ ρ} {good : List UInt8 → Prop} {log : List LogEntry} {s : Local σ ρ}
  {calls : List StoreOp}

/-- The node has applied the log up to `lastApplied`, and nothing in it fails to apply. -/
structure Ready (c : Cluster σ ρ) (log : List LogEntry) (s : Local σ ρ) : Prop where
  checkpoints : Checkpoints c.apply
  stores : StoresLog s.store.log log
  replayed : replay c.apply 1 (log.take s.node.lastApplied) (0, c.app) =
    .ok (s.store.lastApplied, s.store.app)
  total : ∀ count, ∃ state, replay c.apply 1 (log.take count) (0, c.app) = .ok state

theorem transition_applyStep {apply : Option (ApplyFunc σ ρ)} {index : Nat} {entry : LogEntry}
    {result : Option ρ} {next : Nat × σ}
    (stepped : transition apply index entry (s.store.lastApplied, s.store.app) =
      .ok (result, next)) :
    applyStep apply index entry.term entry s = .ok (result,
      s.onStore fun store => { store with lastApplied := next.1, app := next.2 }) := by
  unfold transition at stepped
  unfold applyStep
  split at stepped
  · cases stepped
    rfl
  · split at stepped
    · contradiction
    · rename_i found
      cases stepped
      simp only [applyTx, found]

theorem ready_next (ready : Ready c log s) (inside : s.node.lastApplied < log.length) :
    ∃ entry result next, s.store.entry (s.node.lastApplied + 1) = some entry ∧
      applyStep c.apply (s.node.lastApplied + 1) entry.term entry s = .ok (result,
        s.onStore fun store => { store with lastApplied := next.1, app := next.2 }) ∧
      replay c.apply 1 (log.take (s.node.lastApplied + 1)) (0, c.app) = .ok next := by
  obtain ⟨next, whole⟩ := ready.total (s.node.lastApplied + 1)
  have split := whole
  rw [List.take_add_one, List.getElem?_eq_getElem inside] at split
  obtain ⟨middle, before, last⟩ := replay_split _ _ 1 _ _ split
  cases ready.replayed.symm.trans before
  rw [List.length_take, Nat.min_eq_left (Nat.le_of_lt inside), Nat.add_comm] at last
  simp only [Option.toList_some, replay] at last
  split at last
  · contradiction
  · rename_i result reached stepped
    cases last
    exact ⟨log[s.node.lastApplied], result, next,
      (storesLog_entry ready.stores _).trans (List.getElem?_eq_getElem inside),
      transition_applyStep stepped, whole⟩

theorem ends_applied {apply : Option (ApplyFunc σ ρ)} {index term : Nat} {entry : LogEntry}
    {result : Option ρ} {after : Local σ ρ} {next : Except CallError (Option ρ) → Handler σ ρ β}
    {post : β → Local σ ρ → Prop}
    (applied : applyStep apply index term entry s = .ok (result, after))
    (rest : ∀ calls, Ends (next (.ok result)) calls after post) :
    Ends (applyEntry apply index term entry >>= next) calls s post := by
  unfold applyEntry
  cases apply with
  | none =>
      cases applied
      exact rest _
  | some f =>
      rw [Ends, Proc.wp_bind]
      apply Proc.wp_perform
      · intro _ value reached acted
        cases acted.symm.trans applied
        exact rest _
      · intro _ refused
        cases refused.symm.trans applied
      · rintro ⟨⟩
      · rintro ⟨⟩

/-- The log and the term are still on disk. -/
def Resumes (store after : Store σ) : Prop :=
  after.log = store.log ∧ after.currentTerm = store.currentTerm

theorem resumes_trans {first second third : Store σ} (early : Resumes first second)
    (late : Resumes second third) : Resumes first third :=
  ⟨late.1.trans early.1, late.2.trans early.2⟩

theorem ends_replayLoop (rounds : Nat) (ready : Ready c log s)
    (inside : s.node.lastApplied + rounds ≤ log.length) :
    Ends (replayLoop c.apply rounds) calls s
      (fun result after => result = .ok () ∧ Resumes s.store after.store) := by
  induction rounds generalizing s calls with
  | zero => exact ⟨rfl, rfl, rfl⟩
  | succ rounds ih =>
      obtain ⟨entry, result, next, found, applied, replayed⟩ := ready_next ready (by omega)
      apply ends_get
      apply ends_read
      rw [found]
      apply ends_applied applied
      intro calls
      apply ends_update
      apply ends_mono (ih ?_ ?_)
      · exact fun _ after kept => kept
      · exact ⟨ready.checkpoints, ready.stores, replayed, ready.total⟩
      · change s.node.lastApplied + 1 + rounds ≤ log.length
        omega

theorem ends_recover (checkpoints : Checkpoints c.apply)
    (named : s.store.Named s.node.clusterID) (configured : s.node.clusterID ≠ "")
    (stores : StoresLog s.store.log log)
    (replayed : replay c.apply 1 (log.take s.store.lastApplied) (0, c.app) =
      .ok (s.store.lastApplied, s.store.app))
    (total : ∀ count, ∃ state, replay c.apply 1 (log.take count) (0, c.app) = .ok state)
    (bounded : s.store.lastApplied ≤ s.store.commitIndex)
    (inside : s.store.commitIndex ≤ log.length) :
    Ends (recover c.apply) calls s
      (fun result after => result = .ok () ∧ Resumes s.store after.store) := by
  have identified : Ends recoverClusterID calls s (fun result after => result = .ok () ∧
      ∃ clusterID, after.store = s.store.setClusterID clusterID) := by
    apply ends_read
    apply ends_get
    dsimp only
    by_cases fresh : s.store.clusterID = ""
    · rw [if_pos fresh, if_neg configured]
      exact ⟨rfl, _, rfl⟩
    · rw [if_neg fresh, if_neg (by simp [named.resolve_left fresh])]
      exact ⟨rfl, s.store.clusterID, rfl⟩
  apply ends_bind identified
  rintro _ calls after ⟨rfl, clusterID, store⟩
  have restored : Ends readCheckpoints calls after (fun result read => result = .ok () ∧
      read = after.onNode (·.restored after.store.currentTerm after.store.votedFor
        after.store.lastIndex (after.store.entry after.store.lastIndex) after.store.commitIndex
        after.store.lastApplied)) := ⟨rfl, rfl⟩
  apply ends_bind restored
  rintro _ calls _ ⟨rfl, rfl⟩
  apply ends_get
  refine ends_mono (ends_replayLoop _ (?_ : Ready c log _) ?_) ?_
  · refine ⟨checkpoints, ?_, ?_, total⟩
    · rw [onNode_store, store]
      exact stores
    · rw [onNode_store, onNode_node, store]
      exact replayed
  · rw [onNode_node, store]
    change s.store.lastApplied + (s.store.commitIndex - s.store.lastApplied) ≤ log.length
    omega
  · rintro result reached ⟨done, kept⟩
    rw [onNode_store, store] at kept
    exact ⟨done, kept⟩

end Ready

section Waking

variable {c : Cluster σ ρ} {net : Traffic} {good : List UInt8 → Prop} {w : World σ ρ}

theorem log_applies (applies : Applies c good) (serving : Serving c good w) {g : History}
    {counted : String → Finset String} (valid : Replicated c w g counted) (id : String)
    (count : Nat) : ∃ state, replay c.apply 1 ((g.log id).take count) (0, c.app) = .ok state := by
  apply applies.replays
  intro entry member command
  obtain ⟨place, found⟩ := List.mem_iff_getElem?.mp (List.mem_of_mem_take member)
  have stored : w.entry id (place + 1) = some entry :=
    (storesLog_entry (valid.logs.stores id) place).trans found
  obtain ⟨k, origin, registered, _⟩ :=
    (minted_reachable serving.reachable).stored id _ entry stored command
  exact serving.asked k origin entry registered

theorem applied_reachable (checkpoints : Checkpoints c.apply)
    (reachable : c.Reachable Plan.clean w) :
    ∃ g counted, Replicated c w g counted ∧ ∀ id, Applied c (g.log id) (w.members id) := by
  obtain ⟨g, counted, valid, _, applied⟩ := applied_later checkpoints (fun _ => applied_init c)
    (⟨votes_init c, logs_init c⟩ : Replicated c c.init (Replicas.init String LogEntry) fun _ => ∅)
    reachable
  exact ⟨g, counted, valid, applied⟩

theorem restart_up (applies : Applies c good) (clustered : c.clusterID ≠ "")
    (serving : Serving c good w) {id : String} (listed : id ∈ c.ids) :
    ∃ s, c.restart Plan.smooth w id = w.put id s ∧ Resumes (w.members id).store s.store := by
  obtain ⟨g, counted, valid, applied⟩ := applied_reachable applies.checkpoints serving.reachable
  have started : Ends (start c.apply) [] (w.view id (c.config id).blank)
      (fun result after => result = .ok () ∧ Resumes (w.members id).store after.store) := by
    apply ends_get
    rw [if_neg (show (w.view id (c.config id).blank).node.id ≠ "" from c.named id listed)]
    apply ends_bind (ends_recover applies.checkpoints
      ((identified_reachable serving.reachable).stored id) clustered (valid.logs.stores id)
      (applied id).replayed (log_applies applies serving valid id) (applied id).bounded
      (settled_length valid.logs.sound (valid.logs.commits id)))
    rintro _ _ _ ⟨rfl, kept⟩
    exact ⟨rfl, kept⟩
  obtain ⟨_, made, s, ran, rfl, kept⟩ := ends_run started
  refine ⟨s, ?_, kept⟩
  simp only [Cluster.restart, ran]

theorem calmly_woken (applies : Applies c net.asks) (clustered : c.clusterID ≠ "")
    (serving : Serving c net.asks w) (ids : List String) (listed : ∀ id ∈ ids, id ∈ c.ids) :
    ∃ u, c.Calmly net w u ∧ (∀ id ∈ ids, (u.members id).node.isSome) ∧
      ∀ id, Resumes (w.members id).store (u.members id).store := by
  induction ids with
  | nil => exact ⟨w, ReflTransGen.refl, by rintro id ⟨⟩, fun id => ⟨rfl, rfl⟩⟩
  | cons id rest ih =>
      obtain ⟨u, run, woken, same⟩ :=
        ih fun other member => listed other (List.mem_cons_of_mem _ member)
      by_cases stopped : (u.members id).node.isNone
      · have own := listed id List.mem_cons_self
        obtain ⟨s, started, kept⟩ := restart_up applies clustered (serving_calmly serving run) own
        have stepped : c.step Plan.smooth u (.restart id) = some (u.put id s) := by
          rw [Cluster.step, if_pos ⟨own, stopped⟩, started]
        refine ⟨u.put id s, run.trans (calmly_step (.restart id) trivial stepped), ?_, ?_⟩
        · intro other member
          by_cases equal : other = id
          · rw [equal, put_member]
            rfl
          · rw [put_member_ne _ _ _ _ equal]
            exact woken other ((List.mem_cons.mp member).resolve_left equal)
        · intro other
          by_cases equal : other = id
          · rw [equal, put_member]
            exact resumes_trans (same id) kept
          · rw [put_member_ne _ _ _ _ equal]
            exact same other
      · refine ⟨u, run, ?_, same⟩
        intro other member
        rcases List.mem_cons.mp member with rfl | later
        · simpa [Option.isNone_iff_eq_none, Option.isSome_iff_ne_none] using stopped
        · exact woken other later

end Waking

section Exchange

variable {c : Cluster σ ρ} {net : Traffic} {w : World σ ρ} {k : Nat}
  {source peer : String} {node other : Node}

def World.replied (w : World σ ρ) (peer : String) (s : Local σ ρ) (k : Nat) (resp : Response) :
    World σ ρ := (w.put peer s).answer k resp

/-- The world once the answer has been handled by the sender as well. -/
def World.exchanged (w : World σ ρ) (peer : String) (s : Local σ ρ) (k : Nat) (resp : Response)
    (source : String) (t : Local σ ρ) : World σ ρ :=
  ((w.replied peer s k resp).settle k).put source t

theorem exchanged_other (s t : Local σ ρ) (resp : Response) {id : String} (apart : id ≠ source) :
    (w.exchanged peer s k resp source t).members id = (w.put peer s).members id :=
  put_member_ne _ _ _ _ apart

theorem exchange_handled {s : Local σ ρ} {call : Call} {resp : Response}
    {handler : Handler σ ρ Unit} {taken : Local σ ρ → Prop}
    (asked : w.calls[k]? = some call) (carried : net.carries call.request)
    (sent : s.calls[k]? = some call) (pending : k ∉ w.settled) (apart : source ≠ peer)
    (up : (w.members source).node = some node)
    (delivered : c.step Plan.smooth w (.deliver k) = some (w.replied peer s k resp))
    (responds : ∀ v : World σ ρ, c.respond Plan.smooth v call (some resp) =
      (v.run Plan.smooth source handler).map Prod.snd)
    (answered : Ends handler [] ((w.replied peer s k resp).view source node)
      fun _ after => taken after) :
    ∃ t, taken t ∧ c.Calmly net w (w.exchanged peer s k resp source t) := by
  have still : ((w.replied peer s k resp).settle k).members source = w.members source :=
    put_member_ne _ _ _ _ apart
  obtain ⟨_, t, returned, takes⟩ := ends_world (w := (w.replied peer s k resp).settle k)
    (still ▸ up) answered
  have last : (w.replied peer s k resp).replies[w.replies.length]? = some (k, resp) := by
    simp [World.replied, World.answer]
  have made : (w.replied peer s k resp).calls[k]? = some call := sent
  have waits : k ∉ (w.replied peer s k resp).settled := pending
  have responded : c.step Plan.smooth (w.replied peer s k resp) (.respond k w.replies.length) =
      some (w.exchanged peer s k resp source t) := by
    simp only [Cluster.step, made, last]
    rw [if_pos ⟨trivial, waits⟩, responds, returned]
    rfl
  have calm : Event.Calm net w (.deliver k) := by
    intro other found
    cases asked.symm.trans found
    exact carried
  exact ⟨t, takes, (calmly_step (.deliver k) calm delivered).trans
    (calmly_step (.respond k w.replies.length) trivial responded)⟩

theorem ends_sent {handler : Handler σ ρ α} {post : α → Local σ ρ → Prop} {inp : Input}
    (running : (w.members peer).node = some other)
    (ends : Ends handler [] (w.view peer other) post)
    (traced : Traced c.apply Plan.smooth inp (w.view peer other) handler (fun _ _ => True) []
      (w.view peer other)) :
    ∃ value s, w.run Plan.smooth peer handler = some (some value, w.put peer s) ∧
      post value s ∧ w.calls <+: s.calls ∧ w.proposals <+: s.proposals := by
  obtain ⟨value, made, s, ran, holds⟩ := ends_run ends
  simp only [Traced, Proc.wp, ran] at traced
  obtain ⟨_, added, grown, _⟩ := moves_proposals traced.1
  refine ⟨value, s, ?_, holds, moves_calls traced.1, added, grown.symm⟩
  simp only [World.run, running, ran]

theorem exchange_vote {req : RequestVoteRequest} {term : Nat}
    {granted : RequestVoteResponse → Local σ ρ → Prop}
    (sent : w.calls[k]? = some ⟨source, peer, term, .vote req⟩)
    (carried : net.carries (.vote req)) (pending : k ∉ w.settled)
    (apart : source ≠ peer) (up : (w.members source).node = some node)
    (running : (w.members peer).node = some other)
    (asked : Ends (handleRequestVote req) [] (w.view peer other) granted) :
    ∃ resp s, granted resp s ∧ w.calls <+: s.calls ∧ ∀ taken : Local σ ρ → Prop,
      Ends (handleVoteResponse term resp false) []
        ((w.replied peer s k (.vote resp)).view source node) (fun _ after => taken after) →
      ∃ t, taken t ∧ c.Calmly net w (w.exchanged peer s k (.vote resp) source t) := by
  obtain ⟨resp, s, ran, holds, grows, _⟩ := ends_sent (c := c) running asked
    (traced_mono (traced_handleRequestVote req rfl) fun _ _ _ => trivial)
  refine ⟨resp, s, holds, grows, fun taken answered => ?_⟩
  apply exchange_handled sent carried (getElem?_grown grows sent) pending apart up _ (fun _ => rfl)
    answered
  simp only [Cluster.step, sent, Cluster.deliver, ran]
  rfl

theorem exchange_append {req : AppendEntriesRequest} {term : Nat}
    {accepted : AppendEntriesResponse → Local σ ρ → Prop}
    (sent : w.calls[k]? = some ⟨source, peer, term, .append req⟩)
    (carried : net.carries (.append req)) (pending : k ∉ w.settled)
    (apart : source ≠ peer) (up : (w.members source).node = some node)
    (running : (w.members peer).node = some other)
    (asked : Ends (handleAppendEntries c.apply req) [] (w.view peer other) accepted) :
    ∃ resp s, accepted resp s ∧ w.proposals <+: s.proposals ∧ ∀ taken : Local σ ρ → Prop,
      Ends (handleAppendResponse c.apply peer term resp false) []
        ((w.replied peer s k (.append resp)).view source node) (fun _ after => taken after) →
      ∃ t, taken t ∧ c.Calmly net w (w.exchanged peer s k (.append resp) source t) := by
  obtain ⟨resp, s, ran, holds, grows, more⟩ := ends_sent (c := c) running asked
    (traced_mono (traced_handleAppendEntries req rfl) fun _ _ _ => trivial)
  refine ⟨resp, s, holds, more, fun taken answered => ?_⟩
  apply exchange_handled sent carried (getElem?_grown grows sent) pending apart up _ (fun _ => rfl)
    answered
  simp only [Cluster.step, sent, Cluster.deliver, ran]
  rfl

end Exchange

def Node.tip (n : Node) : Nat × Nat := (n.lastLogTerm, n.lastLogIndex)

section Voting

variable {s : Local σ ρ} {calls : List StoreOp}

theorem ends_onElectionTimeout (idle : s.node.role ≠ .leader) :
    Ends onElectionTimeout calls s (fun _ after => after = s.stand) := by
  apply ends_get
  rw [if_neg idle]
  rfl

theorem ends_granted {req : RequestVoteRequest} (version : req.protocolVersion = protocolVersion)
    (cluster : req.clusterID = s.node.clusterID) (above : s.node.currentTerm < req.term)
    (upToDate : s.node.candidateLogUpToDate req.lastLogTerm req.lastLogIndex = true) :
    Ends (handleRequestVote req) calls s (fun resp after =>
      resp.voteGranted = true ∧ resp.term = req.term ∧ after.node.currentTerm = req.term ∧
        after.node.tip = s.node.tip) := by
  have raised : s.advanceTerm req.term = (s.onStore (·.setTermAndVote req.term "")).onNode
      fun n => { n with currentTerm := req.term, votedFor := "" } := if_pos above
  apply ends_get
  dsimp only
  rw [if_neg (by simp [version, cluster]), if_neg (by omega), if_pos above]
  apply ends_bind (ends_becomeFollower _ _)
  rintro _ calls _ ⟨rfl, rfl⟩
  generalize followed : (s.advanceTerm req.term).follow "" = voter
  have facts : voter.node.votedFor = "" ∧ voter.node.currentTerm = req.term ∧
      voter.node.lastLogTerm = s.node.lastLogTerm ∧
      voter.node.lastLogIndex = s.node.lastLogIndex := by
    rw [← followed, follow_node, raised]
    exact ⟨rfl, rfl, rfl, rfl⟩
  obtain ⟨free, term, lastTerm, lastIndex⟩ := facts
  have still : voter.node.candidateLogUpToDate req.lastLogTerm req.lastLogIndex = true := by
    rw [Node.candidateLogUpToDate, lastTerm, lastIndex]
    exact upToDate
  apply ends_get
  dsimp only
  rw [if_pos ⟨by simp [free], still⟩]
  exact ⟨rfl, term, term, Prod.ext lastTerm lastIndex⟩

theorem ends_counted {term : Nat} {resp : RequestVoteResponse} {log : List LogEntry}
    (candidate : s.node.role = .candidate) (current : term = s.node.currentTerm)
    (answered : resp.term = s.node.currentTerm) (granted : resp.voteGranted = true)
    (stores : StoresLog s.store.log log) (tip : s.node.lastLogIndex = log.length) :
    Ends (handleVoteResponse term resp false) calls s (fun _ after =>
      after.node.role = .leader ∧ after.node.currentTerm = s.node.currentTerm ∧
          StoresLog after.store.log (ledFrom log s.node.currentTerm) ∨
        s.node.votesGranted + 1 < s.node.quorum ∧ after = s.count) := by
  apply ends_get
  dsimp only
  rw [if_neg (by simp), if_neg (by omega), if_neg (by simp [candidate, current]), if_pos granted]
  apply ends_update
  apply ends_get
  split
  · apply ends_update
    apply ends_get
    apply ends_write
    apply ends_update
    apply ends_mono ends_replicateToAll
    rintro _ after ⟨node, store⟩
    refine Or.inl ⟨by rw [node]; rfl, by rw [node]; rfl, ?_⟩
    rw [store, ledFrom, ← tip]
    exact storesLog_put stores ⟨s.node.lastLogIndex + 1, s.node.currentTerm, .noop, []⟩
      (congrArg (· + 1) tip)
  · rename_i short
    exact Or.inr ⟨Nat.lt_of_not_le short, rfl⟩

end Voting

section Heartbeats

variable {s : Local σ ρ} {calls : List StoreOp}

def Local.requests (s : Local σ ρ) (peers : List String) : List Call :=
  peers.map fun peer => ⟨s.node.id, peer, s.node.currentTerm, .append (s.requestTo peer)⟩

def Local.beat (s : Local σ ρ) : Local σ ρ :=
  { s with node := s.node.startHeartbeat, calls := s.calls ++ s.requests s.node.peers }

theorem ends_replicateEach_sends (leader : s.node.role = .leader) (peers : List String) :
    Ends (replicateEach peers) calls s (fun _ after =>
      after = { s with calls := s.calls ++ s.requests peers }) := by
  induction peers generalizing s calls with
  | nil =>
      change s = { s with calls := s.calls ++ [] }
      rw [List.append_nil]
  | cons peer rest ih =>
      apply ends_bind (ends_replicateToPeer peer leader)
      rintro _ calls _ rfl
      have sent : (s.append peer (s.store.termBefore (s.node.nextFor peer - 1))).node.role =
          .leader := leader
      apply ends_mono (ih sent)
      rintro _ after rfl
      simp [Local.append, Local.send, Local.requests, Local.requestTo]

theorem ends_replicateToAll_sends (leader : s.node.role = .leader) :
    Ends replicateToAll calls s (fun _ after =>
      after = { s with calls := s.calls ++ s.requests s.node.peers }) := by
  apply ends_get
  dsimp only
  rw [if_neg (not_not.mpr leader)]
  exact ends_replicateEach_sends leader _

theorem ends_onHeartbeat (leader : s.node.role = .leader) :
    Ends onHeartbeat calls s (fun _ after => after = s.beat) := by
  apply ends_get
  rw [if_neg (not_not.mpr leader)]
  apply ends_bind (ends_replicateToAll_sends leader)
  rintro _ _ _ rfl
  rfl

theorem ends_stale {apply : Option (ApplyFunc σ ρ)} {req : AppendEntriesRequest}
    (version : req.protocolVersion = protocolVersion) (cluster : req.clusterID = s.node.clusterID)
    (stale : req.term < s.node.currentTerm) :
    Ends (handleAppendEntries apply req) calls s (fun resp after =>
      resp.term = s.node.currentTerm ∧ after = s) := by
  apply ends_get
  dsimp only
  rw [if_neg (by simp [version, cluster]), if_pos stale]
  exact ⟨rfl, rfl⟩

theorem ends_deposed {apply : Option (ApplyFunc σ ρ)} {peer : String} {term : Nat}
    {resp : AppendEntriesResponse} (above : s.node.currentTerm < resp.term) :
    Ends (handleAppendResponse apply peer term resp false) calls s (fun _ after =>
      after.node.role = .follower ∧ after.node.tip = s.node.tip ∧
        after.node.currentTerm = resp.term ∧ after.store.log = s.store.log) := by
  apply ends_get
  dsimp only
  rw [if_neg (by simp), if_pos above]
  apply ends_bind (ends_becomeFollower _ _)
  rintro _ _ _ ⟨rfl, rfl⟩
  refine ⟨follow_role _ _, ?_⟩
  rw [follow_node, follow_store, Local.advanceTerm, if_pos above]
  exact ⟨rfl, rfl, rfl⟩

end Heartbeats

section Candidates

variable {c : Cluster σ ρ} {net : Traffic} {good : List UInt8 → Prop} {w : World σ ρ} {m : String}
  {tail : String → Nat × Nat} {log : List LogEntry} {top : Nat} {command : List UInt8}

def World.AllUp (w : World σ ρ) (c : Cluster σ ρ) (P : String → Node → Prop) : Prop :=
  ∀ id ∈ c.ids, ∃ node, (w.members id).node = some node ∧ P id node

theorem allUp_put {P : String → Node → Prop} (all : w.AllUp c P) {id : String} {s : Local σ ρ}
    (holds : P id s.node) : (w.put id s).AllUp c P := by
  intro other listed
  by_cases same : other = id
  · rw [same, put_member]
    exact ⟨s.node, rfl, holds⟩
  · rw [put_member_ne _ _ _ _ same]
    exact all other listed

theorem upToDate_of_le {n : Node} {best : Nat × Nat} (order : toLex n.tip ≤ toLex best) :
    n.candidateLogUpToDate best.1 best.2 = true := by
  rw [Prod.Lex.toLex_le_toLex] at order
  unfold Node.candidateLogUpToDate
  change n.lastLogTerm < best.1 ∨ n.lastLogTerm = best.1 ∧ n.lastLogIndex ≤ best.2 at order
  split
  · simp only [decide_eq_true_eq]
    omega
  · simp only [decide_eq_true_eq]
    omega

/-- All nodes are up with the given last entries, and none is ahead of `m`'s, whose log
is the given one. -/
structure Poised (c : Cluster σ ρ) (good : List UInt8 → Prop) (tail : String → Nat × Nat)
    (log : List LogEntry) (m : String) (w : World σ ρ) : Prop where
  serving : Serving c good w
  listed : m ∈ c.ids
  tails : w.AllUp c fun id n => n.tip = tail id
  foremost : ∀ id ∈ c.ids, toLex (tail id) ≤ toLex (tail m)
  stores : StoresLog (w.members m).store.log log

/-- Node `m` leads the term, no node is in a later one, and all are up. The command can
be appended to its log and sent. -/
structure Leading (c : Cluster σ ρ) (net : Traffic) (command : List UInt8) (m : String)
    (term : Nat) (w : World σ ρ) : Prop where
  serving : Serving c net.asks w
  listed : m ∈ c.ids
  terms : w.AllUp c fun _ n => n.currentTerm ≤ term
  leads : w.Leads m term
  room : ∃ log, StoresLog (w.members m).store.log log ∧
    net.Fits c.clusterID m term (proposedTo log term command)

theorem fresh_call (reachable : c.Reachable Plan.clean w) {added : List Call} {call : Call}
    (member : call ∈ added) :
    ∃ k, (w.calls ++ added)[k]? = some call ∧ k ∉ w.settled := by
  obtain ⟨place, found⟩ := List.mem_iff_getElem?.mp member
  refine ⟨w.calls.length + place, ?_, ?_⟩
  · rw [List.getElem?_append_right (by omega), Nat.add_sub_cancel_left]
    exact found
  · intro settled
    have := settled_below reachable _ settled
    omega

theorem calmly_heartbeat (serving : Serving c good w) {node : Node}
    (up : (w.members m).node = some node) (leader : node.role = .leader) :
    c.Calmly net w (w.put m (w.view m node).beat) := by
  have armed := (armed_reachable serving.reachable m node up).heartbeat leader
  obtain ⟨_, s, ran, rfl⟩ := ends_world up (ends_onHeartbeat (s := w.view m node) leader)
  apply calmly_step (.heartbeat m) trivial
  simp only [Cluster.step, up, armed, if_true, ran]
  rfl

theorem calmly_stand (serving : Serving c good w) {node : Node}
    (up : (w.members m).node = some node) (idle : node.role ≠ .leader) :
    c.Calmly net w (w.put m (w.view m node).stand) := by
  have armed := (armed_reachable serving.reachable m node up).election idle
  obtain ⟨_, s, ran, rfl⟩ := ends_world up (ends_onElectionTimeout (s := w.view m node) idle)
  apply calmly_step (.electionTimeout m) trivial
  simp only [Cluster.step, up, armed, if_true, ran]
  rfl

theorem heartbeat_asks (serving : Serving c good w) {p : String} {node other : Node}
    (up : (w.members m).node = some node) (leader : node.role = .leader) (member : p ∈ c.ids)
    (apart : p ≠ m) (running : (w.members p).node = some other) :
    ∃ v k, v = w.put m (w.view m node).beat ∧ c.Calmly net w v ∧
      (v.members m).node = some (w.view m node).beat.node ∧ (v.members p).node = some other ∧
      v.calls[k]? = some ⟨m, p, node.currentTerm, .append ((w.view m node).requestTo p)⟩ ∧
      k ∉ v.settled := by
  have own : (w.view m node).node.id = m := reachable_named serving.reachable m node up
  have asked : (⟨m, p, node.currentTerm, .append ((w.view m node).requestTo p)⟩ : Call) ∈
      (w.view m node).requests node.peers := by
    refine List.mem_map.mpr ⟨p, (peers_listed serving.reachable up p).mpr ⟨member, apart⟩, ?_⟩
    rw [own]
    rfl
  obtain ⟨k, sent, pending⟩ := fresh_call serving.reachable asked
  exact ⟨_, k, rfl, calmly_heartbeat serving up leader, by rw [put_member],
    by rw [put_member_ne _ _ _ _ apart]; exact running, sent, pending⟩

theorem calmly_deposed (poised : Poised c net.asks tail log m w)
    (fits : net.Fits c.clusterID m top log) (within : w.AllUp c fun _ n => n.currentTerm ≤ top)
    {p : String} {node other : Node} (up : (w.members m).node = some node)
    (leader : node.role = .leader) (member : p ∈ c.ids)
    (running : (w.members p).node = some other) (ahead : node.currentTerm < other.currentTerm) :
    ∃ u follower, c.Calmly net w u ∧ Poised c net.asks tail log m u ∧
      (u.AllUp c fun _ n => n.currentTerm ≤ top) ∧ (u.members m).node = some follower ∧
      follower.role ≠ .leader := by
  have apart : p ≠ m := by
    rintro rfl
    cases up.symm.trans running
    omega
  have named := identified_reachable poised.serving.reachable
  obtain ⟨_, same, ownTip⟩ := poised.tails m poised.listed
  cases up.symm.trans same
  obtain ⟨_, same, otherTip⟩ := poised.tails p member
  cases running.symm.trans same
  obtain ⟨_, same, ownTerm⟩ := within m poised.listed
  cases up.symm.trans same
  obtain ⟨_, same, otherTerm⟩ := within p member
  cases running.symm.trans same
  obtain ⟨v, k, beaten, beats, atLeader, atPeer, sent, pending⟩ :=
    heartbeat_asks poised.serving up leader member apart running
  have clusters : (w.view m node).node.clusterID = (v.view p other).node.clusterID :=
    (named.running m node up).trans (named.running p other running).symm
  have carried := fits_mono fits ownTerm _
    (sends_append poised.serving.reachable up poised.stores leader member apart)
  obtain ⟨resp, s, ⟨term, rfl⟩, _, answered⟩ := exchange_append (c := c) sent carried pending
    apart.symm atLeader atPeer (ends_stale rfl clusters ahead)
  have above : (w.view m node).beat.node.currentTerm < resp.term := by
    rw [term]
    exact ahead
  obtain ⟨t, ⟨role, tips, advanced, kept⟩, run⟩ := answered _ (ends_deposed above)
  have first : v.AllUp c fun id n => n.tip = tail id := by
    rw [beaten]
    exact allUp_put poised.tails ownTip
  have second : (((v.put p (v.view p other)).answer k (.append resp)).settle k).AllUp c
      fun id n => n.tip = tail id := allUp_put first otherTip
  have bounded : v.AllUp c fun _ n => n.currentTerm ≤ top := by
    rw [beaten]
    exact allUp_put within ownTerm
  have known : (((v.put p (v.view p other)).answer k (.append resp)).settle k).AllUp c
      fun _ n => n.currentTerm ≤ top := allUp_put bounded otherTerm
  have stored : t.store.log = (w.members m).store.log := by
    rw [kept]
    change ((v.put p (v.view p other)).members m).store.log = _
    rw [put_member_ne _ _ _ _ apart.symm, beaten, put_member]
    rfl
  have reached : t.node.currentTerm ≤ top := by
    rw [advanced, term]
    exact otherTerm
  refine ⟨_, t.node, beats.trans run, ⟨serving_calmly poised.serving (beats.trans run),
    poised.listed, allUp_put second (tips.trans ownTip), poised.foremost, ?_⟩,
    allUp_put known reached, by rw [World.exchanged, put_member], ?_⟩
  · rw [World.exchanged, put_member, stored]
    exact poised.stores
  · rw [role]
    rintro ⟨⟩

theorem calmly_stands (poised : Poised c net.asks tail log m w) {node : Node}
    (up : (w.members m).node = some node) (idle : node.role ≠ .leader) (rounds : Nat) :
    ∃ u own, c.Calmly net w u ∧ Poised c net.asks tail log m u ∧ (u.members m).node = some own ∧
      own.role ≠ .leader ∧ own.currentTerm = node.currentTerm + rounds ∧
      ∀ id, id ≠ m → u.members id = w.members id := by
  induction rounds with
  | zero => exact ⟨w, node, ReflTransGen.refl, poised, up, idle, rfl, fun _ _ => rfl⟩
  | succ rounds ih =>
      obtain ⟨u, own, run, still, running, waits, term, others⟩ := ih
      have stood : c.Calmly net u _ := calmly_stand still.serving running waits
      obtain ⟨_, same, ownTip⟩ := still.tails m still.listed
      cases running.symm.trans same
      refine ⟨_, _, run.trans stood, ⟨serving_calmly still.serving stood, still.listed,
        allUp_put still.tails ownTip, still.foremost, by rw [put_member]; exact still.stores⟩,
        by rw [put_member], by rintro ⟨⟩, ?_, ?_⟩
      · change own.currentTerm + 1 = _
        omega
      · intro id apart
        rw [put_member_ne _ _ _ _ apart, others id apart]

/-- Candidate `m` lacks votes of its term, and the peers of `rest` have yet to hear of it. -/
structure Campaigning (c : Cluster σ ρ) (net : Traffic) (tail : String → Nat × Nat)
    (log : List LogEntry) (m : String) (term : Nat) (rest : List String) (w : World σ ρ) :
    Prop where
  poised : Poised c net.asks tail log m w
  terms : w.AllUp c fun _ n => n.currentTerm ≤ term
  candidate : ∃ node, (w.members m).node = some node ∧ node.role = .candidate ∧
    node.currentTerm = term ∧ node.votesGranted < node.quorum ∧
    node.quorum ≤ node.votesGranted + rest.length
  asked : ∀ peer ∈ rest, peer ∈ c.ids ∧ peer ≠ m ∧
    (∀ other, (w.members peer).node = some other → other.currentTerm < term) ∧
    ∃ (k : Nat) (req : RequestVoteRequest), w.calls[k]? = some ⟨m, peer, term, .vote req⟩ ∧
      k ∉ w.settled ∧ net.carries (.vote req) ∧ req.protocolVersion = protocolVersion ∧
      req.clusterID = c.clusterID ∧ req.term = term ∧
      (req.lastLogTerm, req.lastLogIndex) = tail m

theorem campaign_step {term : Nat} {peer : String} {rest : List String}
    (distinct : (peer :: rest).Nodup)
    (fits : net.Fits c.clusterID m term (proposedTo (ledFrom log term) term command))
    (campaigning : Campaigning c net tail log m term (peer :: rest) w) :
    ∃ u, c.Calmly net w u ∧
      (Leading c net command m term u ∨ Campaigning c net tail log m term rest u) := by
  obtain ⟨poised, terms, ⟨node, up, role, current, short, enough⟩, asked⟩ := campaigning
  obtain ⟨member, apart, behind, k, req, sent, pending, carried, version, cluster, same, best⟩ :=
    asked peer List.mem_cons_self
  obtain ⟨other, running, tip⟩ := poised.tails peer member
  have named := (identified_reachable poised.serving.reachable).running peer other running
  have older := behind other running
  have order := poised.foremost peer member
  rw [← tip, ← best] at order
  obtain ⟨resp, s, ⟨granted, answered, voted, voterTip⟩, grows, handled⟩ :=
    exchange_vote (c := c) sent carried pending apart.symm up running
      (ends_granted (s := w.view peer other) version (cluster.trans named.symm)
        (by rw [same]; exact older) (upToDate_of_le order))
  have held : ((w.replied peer s k (.vote resp)).members m).store = (w.members m).store :=
    congrArg Member.store (put_member_ne w peer s m apart.symm)
  have stores : StoresLog ((w.replied peer s k (.vote resp)).view m node).store.log log := by
    change StoresLog ((w.replied peer s k (.vote resp)).members m).store.log log
    rw [held]
    exact poised.stores
  obtain ⟨t, outcome, run⟩ := handled _ (ends_counted (s := (w.replied peer s k _).view m node)
    role current.symm (answered.trans (same.trans current.symm)) granted stores
    (caches_reachable poised.serving.reachable up poised.stores).tip)
  have serving := serving_calmly poised.serving run
  have voter : s.node.currentTerm ≤ term := by
    rw [voted, same]
  have voted : (((w.put peer s).answer k (.vote resp)).settle k).AllUp c
      fun _ n => n.currentTerm ≤ term := allUp_put terms voter
  refine ⟨_, run, ?_⟩
  rcases outcome with ⟨leader, won, appended⟩ | ⟨lacking, rfl⟩
  · change StoresLog t.store.log (ledFrom log node.currentTerm) at appended
    rw [current] at appended
    refine Or.inl ⟨serving, poised.listed, allUp_put voted ?_, ⟨t.node, ?_, leader, ?_⟩,
      ledFrom log term, ?_, fits⟩
    · rw [won]
      exact Nat.le_of_eq current
    · rw [World.exchanged, put_member]
    · exact won.trans current
    · rw [World.exchanged, put_member]
      exact appended
  · obtain ⟨_, found, ownTip⟩ := poised.tails m poised.listed
    cases up.symm.trans found
    have tips : (((w.put peer s).answer k (.vote resp)).settle k).AllUp c
        fun id n => n.tip = tail id := allUp_put poised.tails (voterTip.trans tip)
    refine Or.inr ⟨⟨serving, poised.listed, allUp_put tips ownTip, poised.foremost,
      by rw [World.exchanged, put_member]; exact stores⟩,
      allUp_put voted (Nat.le_of_eq current), ?_, ?_⟩
    · refine ⟨((w.replied peer s k (.vote resp)).view m node).count.node,
        by rw [World.exchanged, put_member], role, current, lacking, ?_⟩
      rw [List.length_cons] at enough
      change node.quorum ≤ node.votesGranted + 1 + rest.length
      omega
    · intro next later
      obtain ⟨known, away, below, j, wanted, made, waits, facts⟩ :=
        asked next (List.mem_cons_of_mem _ later)
      have different : next ≠ peer := by
        rintro rfl
        exact (List.nodup_cons.mp distinct).1 later
      refine ⟨known, away, ?_, j, wanted, getElem?_grown grows made, ?_, facts⟩
      · intro voter running
        rw [exchanged_other _ _ _ away, put_member_ne _ _ _ _ different] at running
        exact below voter running
      · rw [show (w.exchanged peer s k (.vote resp) m _).settled = w.settled ++ [k] from rfl,
          List.mem_append, List.mem_singleton]
        rintro (old | rfl)
        · exact waits old
        · rw [sent] at made
          cases made
          exact different rfl

theorem campaign_won {term : Nat} (rest : List String) (distinct : rest.Nodup)
    (fits : net.Fits c.clusterID m term (proposedTo (ledFrom log term) term command))
    (campaigning : Campaigning c net tail log m term rest w) :
    ∃ u, c.Calmly net w u ∧ Leading c net command m term u := by
  induction rest generalizing w with
  | nil =>
      obtain ⟨node, _, _, _, short, enough⟩ := campaigning.candidate
      simp only [List.length_nil] at enough
      omega
  | cons peer rest ih =>
      obtain ⟨u, run, leading | still⟩ := campaign_step distinct fits campaigning
      · exact ⟨u, run, leading⟩
      · obtain ⟨v, more, leading⟩ := ih (List.nodup_cons.mp distinct).2 still
        exact ⟨v, run.trans more, leading⟩

/-- A node that does not lead, with a log as good as any, gets elected in the term after
all others. -/
theorem calmly_elected (several : 2 ≤ c.ids.length) (poised : Poised c net.asks tail log m w)
    (room : net.Room c.clusterID m top command log)
    (within : w.AllUp c fun _ n => n.currentTerm ≤ top) {node : Node}
    (up : (w.members m).node = some node) (idle : node.role ≠ .leader) :
    ∃ u, c.Calmly net w u ∧ Leading c net command m (top + 1) u := by
  obtain ⟨_, same, ownTerm⟩ := within m poised.listed
  cases up.symm.trans same
  obtain ⟨v, own, run, still, running, waits, current, others⟩ :=
    calmly_stands poised up idle (top - node.currentTerm)
  have reached : own.currentTerm = top := by omega
  have stood : c.Calmly net v _ := calmly_stand still.serving running waits
  obtain ⟨g, counted, valid⟩ := replicated_reachable still.serving.reachable
  have votes := valid.votes.nodes m own running
  have named := (identified_reachable still.serving.reachable).running m own running
  have size : own.peers.length + 1 = c.ids.length := by
    rw [votes.peers]
    exact (Voting.perm_others c.ids m c.distinct still.listed).length_eq
  have half := votes.quorum
  obtain ⟨_, found, ownTip⟩ := still.tails m still.listed
  cases running.symm.trans found
  have lower (id : String) (listed : id ∈ c.ids) (apart : id ≠ m) (other : Node)
      (there : (v.members id).node = some other) : other.currentTerm < top + 1 := by
    rw [others id apart] at there
    obtain ⟨_, same, below⟩ := within id listed
    cases there.symm.trans same
    omega
  have campaigning : Campaigning c net tail log m (top + 1) own.peers
      (v.put m (v.view m own).stand) := by
    refine ⟨⟨serving_calmly still.serving stood, still.listed, allUp_put still.tails ownTip,
      still.foremost, by rw [put_member]; exact still.stores⟩, ?_, ?_, ?_⟩
    · apply allUp_put _ (show own.currentTerm + 1 ≤ top + 1 by omega)
      intro id listed
      obtain ⟨other, there, _⟩ := still.tails id listed
      refine ⟨other, there, ?_⟩
      by_cases apart : id = m
      · subst id
        cases running.symm.trans there
        omega
      · exact Nat.le_of_lt (lower id listed apart other there)
    · refine ⟨(v.view m own).stand.node, by rw [put_member], rfl, congrArg (· + 1) reached, ?_, ?_⟩
      · change 1 < own.quorum
        omega
      · change own.quorum ≤ 1 + own.peers.length
        omega
    · intro peer listed
      obtain ⟨known, apart⟩ := (peers_listed still.serving.reachable running peer).mp listed
      let request := (own.standFor (own.currentTerm + 1)).voteRequest
      have asked : (⟨m, peer, top + 1, .vote request⟩ : Call) ∈
          own.peers.map fun peer => ⟨own.id, peer, own.currentTerm + 1, .vote request⟩ := by
        rw [votes.identity, reached]
        exact List.mem_map_of_mem listed
      obtain ⟨k, sent, pending⟩ := fresh_call still.serving.reachable asked
      have carried : net.carries (.vote request) := fits_mono room.heard (by omega) _
        (sends_vote still.serving.reachable running still.stores)
      refine ⟨known, apart, ?_, k, request, sent, pending, carried, rfl, named,
        congrArg (· + 1) reached, ownTip⟩
      intro other there
      rw [put_member_ne _ _ _ _ apart] at there
      exact lower peer known apart other there
  obtain ⟨u, won, leading⟩ := campaign_won own.peers
    (votes.peers ▸ c.distinct.filter _) room.elected campaigning
  exact ⟨u, (run.trans stood).trans won, leading⟩

/-- Whatever state the cluster is in, calm events lead to one with a leader, if the log
of each node leaves room for the requests. -/
theorem calmly_leading (applies : Applies c net.asks) (clustered : c.clusterID ≠ "")
    (several : 2 ≤ c.ids.length) (serving : Serving c net.asks w)
    (within : ∀ id ∈ c.ids, (w.members id).store.currentTerm ≤ top)
    (room : ∀ id ∈ c.ids, ∀ log, StoresLog (w.members id).store.log log →
      net.Room c.clusterID id top command log) :
    ∃ u m term, c.Calmly net w u ∧ Leading c net command m term u := by
  obtain ⟨v, run, woken, same⟩ :=
    calmly_woken applies clustered serving c.ids fun _ listed => listed
  let tips (id : String) : Nat × Nat := ((v.members id).node.map Node.tip).getD (0, 0)
  have nonempty : c.ids.toFinset.Nonempty := by
    obtain ⟨first, listed⟩ := List.exists_mem_of_length_pos (show 0 < c.ids.length by omega)
    exact ⟨first, List.mem_toFinset.mpr listed⟩
  obtain ⟨m, member, most⟩ := c.ids.toFinset.exists_max_image (fun id => toLex (tips id)) nonempty
  have servingNext := serving_calmly serving run
  obtain ⟨g, counted, valid⟩ := replicated_reachable servingNext.reachable
  have poised : Poised c net.asks tips (g.log m) m v := by
    refine ⟨servingNext, List.mem_toFinset.mp member, ?_, ?_, valid.logs.stores m⟩
    · intro id listed
      obtain ⟨node, up⟩ := Option.isSome_iff_exists.mp (woken id listed)
      exact ⟨node, up, by simp [tips, up]⟩
    · exact fun id listed => most id (List.mem_toFinset.mpr listed)
  have bounded : v.AllUp c fun _ n => n.currentTerm ≤ top := by
    intro id listed
    obtain ⟨node, up⟩ := Option.isSome_iff_exists.mp (woken id listed)
    refine ⟨node, up, ?_⟩
    change node.currentTerm ≤ top
    rw [(valid.votes.nodes id node up).term, (same id).2]
    exact within id listed
  have ample : net.Room c.clusterID m top command (g.log m) := by
    apply room m poised.listed
    rw [← (same m).1]
    exact valid.logs.stores m
  obtain ⟨node, up, ownTerm⟩ := bounded m poised.listed
  by_cases leader : node.role = .leader
  · by_cases latest : v.AllUp c fun _ n => n.currentTerm ≤ node.currentTerm
    · have fits := fits_mono (ample.proposed node.currentTerm ownTerm) (Nat.le_succ_of_le ownTerm)
      exact ⟨v, m, node.currentTerm, run, servingNext, poised.listed, latest, ⟨node, up, leader,
        rfl⟩, g.log m, poised.stores, fits⟩
    · -- Some node is in a later term.
      simp only [World.AllUp, not_forall] at latest
      obtain ⟨p, listed, later⟩ := latest
      obtain ⟨other, running, _⟩ := poised.tails p listed
      have ahead : node.currentTerm < other.currentTerm := by
        by_contra within
        exact later ⟨other, running, by omega⟩
      obtain ⟨u, follower, deposed, still, terms, there, idle⟩ := calmly_deposed poised
        (fits_mono ample.heard (Nat.le_succ top)) bounded up leader listed running ahead
      obtain ⟨x, elected, leading⟩ := calmly_elected several still ample terms there idle
      exact ⟨x, m, top + 1, (run.trans deposed).trans elected, leading⟩
  · obtain ⟨x, elected, leading⟩ := calmly_elected several poised ample bounded up leader
    exact ⟨x, m, top + 1, run.trans elected, leading⟩

end Candidates

end QuorumLimiter
