import QuorumLimiter.Lib.Simulation
import QuorumLimiter.Raft.Turns

/-!
The cluster identity. A store takes the configured cluster id on its first start
and keeps it; a node does not come up under another one. So all nodes that run
answer to the same id.
-/

namespace QuorumLimiter

open Relation Simulation

variable {σ ρ : Type}

/-- The store has no cluster id yet, or the given one. -/
def Store.Named (store : Store σ) (clusterID : String) : Prop :=
  store.clusterID = "" ∨ store.clusterID = clusterID

/-- What is stored and what runs has the configured cluster id. -/
structure Identified (c : Cluster σ ρ) (w : World σ ρ) : Prop where
  stored : ∀ id, (w.members id).store.Named c.clusterID
  running : ∀ id node, (w.members id).node = some node → node.clusterID = c.clusterID

section Moving

variable {apply : Option (ApplyFunc σ ρ)} {plan : Plan} {inp : Input} {s t : Local σ ρ}

theorem move_identity (move : Move apply plan inp s t) :
    t.node.clusterID = s.node.clusterID ∧ t.store.clusterID = s.store.clusterID := by
  cases move with
  | stepDown term leaderID =>
      rw [follow_store, follow_node, Local.advanceTerm]
      split <;> exact ⟨rfl, rfl⟩
  | applyNext after entry result _ _ applied =>
      obtain ⟨lastApplied, app, rfl⟩ := applyStep_facts applied
      unfold Local.deliver
      split <;> exact ⟨rfl, rfl⟩
  | recordMatch =>
      rw [onNode_node, onNode_store, recordMatch]
      split <;> exact ⟨rfl, rfl⟩
  | _ => exact ⟨rfl, rfl⟩

theorem moves_identity (path : Moves apply plan inp s t) :
    t.node.clusterID = s.node.clusterID ∧ t.store.clusterID = s.store.clusterID := by
  induction path with
  | refl => exact ⟨rfl, rfl⟩
  | tail _ move ih =>
      obtain ⟨node, store⟩ := move_identity move
      exact ⟨node.trans ih.1, store.trans ih.2⟩

end Moving

section Starting

variable {apply : Option (ApplyFunc σ ρ)} {plan : Plan} {s : Local σ ρ} {calls : List StoreOp}

theorem recoverClusterID_named (named : s.store.Named s.node.clusterID) :
    recoverClusterID.wp plan (fun result _ after =>
      after.store.Named s.node.clusterID ∧ after.node.waiters = s.node.waiters ∧
        (result = .ok () → after.node.clusterID = s.node.clusterID))
      (·.store.Named s.node.clusterID) calls s := by
  apply wp_readStore named
  · exact ⟨named, rfl, by rintro ⟨⟩⟩
  · simp only [Proc.wp_bind, Proc.wp_get]
    by_cases fresh : s.store.clusterID = ""
    · rw [if_pos fresh]
      by_cases unnamed : s.node.clusterID = ""
      · rw [if_pos unnamed]
        exact ⟨named, rfl, by rintro ⟨⟩⟩
      · rw [if_neg unnamed]
        apply Proc.wp_write
        · exact fun _ => ⟨Or.inr rfl, rfl, fun _ => rfl⟩
        · exact fun _ => ⟨named, rfl, by rintro ⟨⟩⟩
        · exact fun _ => named
    · rw [if_neg fresh]
      split
      · exact ⟨named, rfl, by rintro ⟨⟩⟩
      · exact ⟨named, rfl, fun _ => named.resolve_left fresh⟩

theorem start_named (named : s.store.Named s.node.clusterID)
    (idle : s.node.waiters = Bucket.empty) :
    (start apply).wp plan (fun result _ after =>
      after.store.Named s.node.clusterID ∧
        (result = .ok () → after.node.clusterID = s.node.clusterID))
      (·.store.Named s.node.clusterID) calls s := by
  rw [start, Proc.wp_bind, Proc.wp_get]
  split
  · exact ⟨named, by rintro ⟨⟩⟩
  · rw [Proc.wp_bind, recover, Proc.wp_bind]
    apply Proc.wp_mono plan calls s _ _ _ _ _ (recoverClusterID_named named) _ fun _ cut => cut
    rintro (_ | _) calls settled ⟨stored, waiting, settles⟩
    · exact ⟨stored, by rintro ⟨⟩⟩
    · have cluster := settles rfl
      dsimp only
      rw [Proc.wp_bind]
      apply Proc.wp_mono plan calls _ _ _ _ _ _ (wp_readCheckpoints stored) _ fun _ cut => cut
      rintro _ calls read (⟨rfl, rfl⟩ | ⟨rfl, rfl⟩)
      · exact ⟨stored, by rintro ⟨⟩⟩
      · refine Proc.wp_mono plan calls _ _ (fun _ _ after => Moves apply plan .other _ after ∧ True)
          _ (Crashed apply plan .other _) _ (traced_replayCommitted (waiting.trans idle)) ?_ ?_
        · rintro result _ after ⟨path, _⟩
          obtain ⟨sameNode, sameStore⟩ := moves_identity path
          have kept : after.store.Named s.node.clusterID := by
            rw [Store.Named, sameStore]
            exact stored
          cases result with
          | error error => exact ⟨kept, by rintro ⟨⟩⟩
          | ok _ => exact ⟨kept, fun _ => sameNode.trans cluster⟩
        · rintro after ⟨reached, path, store, _⟩
          rw [Store.Named, ← store, (moves_identity path).2]
          exact stored

end Starting

section Running

variable {c : Cluster σ ρ} {plan : Plan} {w after : World σ ρ}

theorem identified_init (c : Cluster σ ρ) : Identified c c.init :=
  ⟨fun _ => Or.inl rfl, by rintro id node ⟨⟩⟩

theorem identified_turn {inp : Input} (awake : inp ≠ .restart) (valid : Identified c w)
    (turn : Turn c plan inp w after) : Identified c after := by
  have each : ∀ id, (after.members id).store.Named c.clusterID ∧
      ∀ node, (after.members id).node = some node → node.clusterID = c.clusterID := by
    intro id
    generalize member : after.members id = reached
    have single := turn_member turn id
    rw [member] at single
    cases single with
    | same => exact ⟨valid.stored id, valid.running id⟩
    | down => exact ⟨valid.stored id, by rintro node ⟨⟩⟩
    | wake clusterID listed stopped given => exact absurd given awake
    | count node up =>
        refine ⟨valid.stored id, ?_⟩
        rintro _ ⟨⟩
        exact valid.running id node up
    | move node s up arrived move =>
        obtain ⟨sameNode, sameStore⟩ := move_identity move
        refine ⟨?_, ?_⟩
        · rw [Store.Named, sameStore]
          exact valid.stored id
        · rintro _ ⟨⟩
          exact sameNode.trans (valid.running id node up)
  exact ⟨fun id => (each id).1, fun id => (each id).2⟩

theorem identified_put (valid : Identified c w) (id : String) (s : Local σ ρ)
    (stored : s.store.Named c.clusterID) (node : s.node.clusterID = c.clusterID) :
    Identified c (w.put id s) := by
  refine ⟨?_, ?_⟩
  · intro other
    by_cases self : other = id
    · rw [self, put_member]
      exact stored
    · rw [put_member_ne _ _ _ _ self]
      exact valid.stored other
  · intro other there up
    by_cases self : other = id
    · rw [self, put_member] at up
      cases up
      exact node
    · rw [put_member_ne _ _ _ _ self] at up
      exact valid.running other there up

theorem identified_restart (valid : Identified c w) (id : String) :
    Identified c (c.restart plan w id) := by
  have fallen : ∀ s : Local σ ρ, s.store.Named c.clusterID →
      Identified c ((w.put id s).down id) := by
    intro s named
    refine ⟨?_, ?_⟩
    · intro other
      by_cases self : other = id
      · simp only [World.down, self, Function.update_self, put_member]
        exact named
      · simp only [World.down, Function.update_of_ne self, put_member_ne w id s other self]
        exact valid.stored other
    · intro other node up
      by_cases self : other = id
      · simp [World.down, self] at up
      · simp only [World.down, Function.update_of_ne self, put_member_ne w id s other self] at up
        exact valid.running other node up
  have spec : Proc.wp (start c.apply) plan _ _ [] (w.view id (c.config id).blank) :=
    start_named (valid.stored id) rfl
  simp only [Proc.wp] at spec
  unfold Cluster.restart
  split at spec
  · rename_i result _ s run
    rw [run]
    cases result with
    | error error => exact fallen s spec.1
    | ok _ => exact identified_put valid id s spec.1 (spec.2 rfl)
  · rename_i _ s run
    rw [run]
    exact fallen s spec

theorem identified_step {event : Event} (valid : Identified c w)
    (stepped : c.step plan w event = some after) : Identified c after := by
  cases step_turns stepped with
  | plain inp plain turns =>
      have awake : inp ≠ .restart := by
        rintro rfl
        exact plain
      exact run_invariant (Identified c) (fun _ _ turn holds => identified_turn awake holds turn)
        turns valid
  | counted k j call resp node same counting turns =>
      have settled : Identified c (w.settle k) := ⟨valid.stored, valid.running⟩
      have begun : Identified c (w.count k call node) :=
        identified_put settled call.source (w.view call.source node).count
          (valid.stored call.source) (valid.running call.source node counting.up)
      exact run_invariant (Identified c)
        (fun _ _ turn holds => identified_turn (by rintro ⟨⟩) holds turn) turns begun
  | restarted id clusterID same member stopped turns =>
      subst same
      simp only [Cluster.step, member, stopped, Option.isNone_none, and_self, if_true,
        Option.some.injEq] at stepped
      rw [← stepped]
      exact identified_restart valid id

theorem identified_reachable {allowed : Plan → Prop} (reachable : c.Reachable allowed w) :
    Identified c w := by
  apply run_invariant (Identified c) _ reachable (identified_init c)
  rintro _ _ ⟨plan, event, _, stepped⟩ valid
  exact identified_step valid stepped

end Running

end QuorumLimiter
