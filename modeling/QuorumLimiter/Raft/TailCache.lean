import QuorumLimiter.Raft.Turns

/-!
The cached log tail. Votes, election requests and the index of the next append
are computed from `lastLogIndex` and `lastLogTerm`. They follow the durable log
through every failing store call but one: an overwrite that commits and whose
`refreshLastLog` then cannot read the store.
-/

namespace QuorumLimiter

open Simulation

variable {σ ρ : Type}

/-- No read of `refreshLastLog` fails right after the log was overwritten. -/
def Plan.whole (plan : Plan) : Prop := ¬ plan.mayTear

/-- The cached tail is the index and the term of the last stored entry. -/
def TailMatches (node : Node) (store : Store σ) : Prop :=
  ∃ entry, store.log.lastKey = some node.lastLogIndex ∧
    store.entry node.lastLogIndex = some entry ∧ entry.term = node.lastLogTerm

structure Cached (member : Member σ) : Prop where
  kept : (member.store.entry 0).isSome
  matched : ∀ node, member.node = some node → TailMatches node member.store

section Storing

variable {store : Store σ}

theorem putEntries_kept (log : Bucket Nat LogEntry) (entries : List LogEntry)
    (kept : (log.get 0).isSome) : ((Store.putEntries log entries).get 0).isSome := by
  induction entries generalizing log with
  | nil => exact kept
  | cons first rest ih =>
      apply ih
      rw [Bucket.get_put]
      split
      · rfl
      · exact kept

theorem overwriteEntries_kept (truncateFrom : Nat) (entries : List LogEntry)
    (kept : (store.entry 0).isSome) :
    ((store.overwriteEntries truncateFrom entries).entry 0).isSome := by
  apply putEntries_kept
  split
  · rename_i positive
    rw [Store.truncateSuffixTx, Bucket.foldl_delete_seek, Bucket.get_filter]
    obtain ⟨entry, found⟩ := Option.isSome_iff_exists.mp kept
    have below : 0 < truncateFrom := positive
    rw [Store.entry] at found
    simp [found, Option.filter, below]
  · exact kept

theorem lastIndex_stored (kept : (store.entry 0).isSome) :
    ∃ entry, store.log.lastKey = some store.lastIndex ∧
      store.entry store.lastIndex = some entry := by
  obtain ⟨first, found⟩ := Option.isSome_iff_exists.mp kept
  have nonempty : store.log.pairs ≠ [] :=
    List.ne_nil_of_mem ((Bucket.get_eq_some_iff _ _ _).mp found)
  obtain ⟨last, final⟩ : ∃ last, store.log.lastKey = some last := by
    rw [← Option.isSome_iff_exists, Bucket.lastKey, Option.isSome_map]
    exact List.getLast?_isSome.mpr nonempty
  have same : store.lastIndex = last := by rw [Store.lastIndex, final, Option.getD_some]
  obtain ⟨⟨entry, stored⟩, _⟩ := Bucket.lastKey_greatest _ last final
  exact ⟨entry, same ▸ final, same ▸ stored⟩

theorem tailMatches_read {node : Node} (kept : (store.entry 0).isSome)
    (last : node.lastLogIndex = store.lastIndex)
    (term : node.lastLogTerm = ((store.entry store.lastIndex).map (·.term)).getD 0) :
    TailMatches node store := by
  obtain ⟨entry, final, found⟩ := lastIndex_stored kept
  refine ⟨entry, last ▸ final, last ▸ found, ?_⟩
  rw [term, found]
  rfl

theorem tailMatches_append {node after : Node} {entry : LogEntry} {grown : Store σ}
    (matched : TailMatches node store) (next : entry.index = node.lastLogIndex + 1)
    (stored : grown.log = store.log.put entry.index entry)
    (last : after.lastLogIndex = entry.index) (term : after.lastLogTerm = entry.term) :
    TailMatches after grown := by
  obtain ⟨_, final, _, _⟩ := matched
  refine ⟨entry, ?_, ?_, term.symm⟩
  · rw [stored, last]
    exact Bucket.lastKey_put _ _ _ _ final (by omega)
  · rw [Store.entry, stored, last, Bucket.get_put_self]

end Storing

/-- What a move does to the log and the cached tail. -/
inductive TailMove (plan : Plan) (s t : Local σ ρ) : Prop
  | same (log : t.store.log = s.store.log) (last : t.node.lastLogIndex = s.node.lastLogIndex)
      (term : t.node.lastLogTerm = s.node.lastLogTerm)
  | appended (entry : LogEntry) (next : entry.index = s.node.lastLogIndex + 1)
      (stored : t.store.log = s.store.log.put entry.index entry)
      (last : t.node.lastLogIndex = entry.index) (term : t.node.lastLogTerm = entry.term)
  | refreshed (truncateFrom : Nat) (entries : List LogEntry)
      (stored : t.store = s.store.overwriteEntries truncateFrom entries)
      (last : t.node.lastLogIndex = t.store.lastIndex)
      (term : t.node.lastLogTerm = ((t.store.entry t.store.lastIndex).map (·.term)).getD 0)
  | torn (torn : plan.mayTear)

theorem move_tail {apply : Option (ApplyFunc σ ρ)} {plan : Plan} {inp : Input} {s t : Local σ ρ}
    (move : Move apply plan inp s t) : TailMove plan s t := by
  cases move with
  | assertLeadership leader => exact TailMove.appended s.node.noopEntry rfl rfl rfl rfl
  | propose command asked leader =>
      exact TailMove.appended (s.node.commandEntry command) rfl rfl rfl rfl
  | overwrite req truncateFrom toAppend =>
      exact TailMove.refreshed truncateFrom toAppend rfl rfl rfl
  | tear truncateFrom toAppend torn => exact TailMove.torn torn
  | stepDown term leaderID =>
      apply TailMove.same
      · rw [follow_store, Local.advanceTerm]
        split <;> rfl
      · rw [follow_node, Local.advanceTerm]
        split <;> rfl
      · rw [follow_node, Local.advanceTerm]
        split <;> rfl
  | applyNext after entry result _ _ applied =>
      obtain ⟨_, _, rfl⟩ := applyStep_facts applied
      unfold Local.deliver
      split <;> exact TailMove.same rfl rfl rfl
  | recordMatch peer term resp =>
      refine TailMove.same rfl ?_ ?_
      · simp only [onNode_node, recordMatch]
        split <;> rfl
      · simp only [onNode_node, recordMatch]
        split <;> rfl
  | _ => exact TailMove.same rfl rfl rfl

theorem cached_move {plan : Plan} {s t : Local σ ρ} (whole : plan.whole)
    (cached : Cached ⟨some s.node, s.store⟩) (move : TailMove plan s t) :
    Cached ⟨some t.node, t.store⟩ := by
  have kept : (s.store.entry 0).isSome := cached.kept
  have matched : TailMatches s.node s.store := cached.matched s.node rfl
  cases move with
  | same log last term =>
      refine ⟨?_, ?_⟩
      · simp only [Store.entry, log]
        exact kept
      · rintro _ ⟨⟩
        simp only [TailMatches, Store.entry, log, last, term]
        exact matched
  | appended entry next stored last term =>
      refine ⟨?_, ?_⟩
      · simp only [Store.entry, stored]
        exact putEntries_kept s.store.log [entry] kept
      · rintro _ ⟨⟩
        exact tailMatches_append matched next stored last term
  | refreshed truncateFrom entries stored last term =>
      have still : (t.store.entry 0).isSome := stored ▸ overwriteEntries_kept truncateFrom entries kept
      refine ⟨still, ?_⟩
      rintro _ ⟨⟩
      exact tailMatches_read still last term
  | torn torn => exact absurd torn whole

theorem cached_member {c : Cluster σ ρ} {plan : Plan} {inp : Input} {w : World σ ρ} {id : String}
    {member : Member σ} (whole : plan.whole) (cached : Cached (w.members id))
    (turn : MemberTurn c plan inp w id member) : Cached member := by
  cases turn with
  | same => exact cached
  | down => exact ⟨cached.kept, by rintro _ ⟨⟩⟩
  | wake clusterID listed stopped =>
      refine ⟨cached.kept, ?_⟩
      rintro _ ⟨⟩
      exact tailMatches_read cached.kept rfl rfl
  | count node up =>
      refine ⟨cached.kept, ?_⟩
      rintro _ ⟨⟩
      exact cached.matched node up
  | move node s up arrived move =>
      have running : Cached ⟨some node, (w.members id).store⟩ := up ▸ cached
      exact cached_move (s := w.view id node) whole running (move_tail move)

/-- In every run in which no read of `refreshLastLog` fails after its overwrite,
whatever else fails, every running node's cached tail is the tail of its log. -/
theorem tail_matches (c : Cluster σ ρ) (w : World σ ρ)
    (reachable : c.Reachable Plan.whole w) (id : String) (node : Node)
    (up : (w.members id).node = some node) : TailMatches node (w.members id).store := by
  have start : ∀ id, Cached (c.init.members id) := fun _ => ⟨rfl, by rintro _ ⟨⟩⟩
  have kept := run_invariant (fun w : World σ ρ => ∀ id, Cached (w.members id))
    (fun _ _ ⟨_, _, whole, turn⟩ cached id => cached_member whole (cached id) (turn_member turn id))
    (later_taken reachable) start
  exact (kept id).matched node up

theorem smooth_whole : Plan.smooth.whole := by
  rintro ⟨calls, failed | failed⟩ <;> cases failed

theorem tail_matches_trio : ∃ w node, trio.Reachable Plan.whole w ∧
    (w.members "b").node = some node ∧ node.lastLogIndex = 1 ∧
    TailMatches node (w.members "b").store := by
  obtain ⟨w, reachable, seen⟩ := smoothly_reached trio smooth_whole commitFirst
    (fun w => (w.members "b").node.map (·.lastLogIndex))
    (by decide +kernel : _ = some (some 1))
  obtain ⟨node, up, last⟩ := Option.map_eq_some_iff.mp seen
  exact ⟨w, node, reachable, up, last, tail_matches trio w reachable "b" node up⟩

def tearing : Plan
  | .lastIndex :: .overwriteEntries :: _ => .fail
  | _ => .pass

/-- The follower stores the leader's first entry, cannot read its last index back,
and goes on with an empty log in mind. -/
theorem tail_torn : ∃ w node, trio.Reachable Plan.any w ∧ (w.members "b").node = some node ∧
    node.lastLogIndex = 0 ∧ (w.members "b").store.lastIndex = 1 ∧
    ¬ TailMatches node (w.members "b").store := by
  have torn : (trio.steps trio.init (smoothly electFirst ++ [(tearing, .deliver 2)])).map
      (fun w => ((w.members "b").node.map (·.lastLogIndex), (w.members "b").store.lastIndex)) =
      some (some 0, 1) := by decide +kernel
  obtain ⟨w, ran, seen⟩ := Option.map_eq_some_iff.mp torn
  obtain ⟨cache, stored⟩ := Prod.mk.inj seen
  obtain ⟨node, up, last⟩ := Option.map_eq_some_iff.mp cache
  refine ⟨w, node, trio.steps_later _ _ w (fun _ _ => trivial) ran, up, last, stored, ?_⟩
  rintro ⟨_, final, _, _⟩
  rw [Store.lastIndex, final, last] at stored
  exact absurd stored (by decide)

end QuorumLimiter
