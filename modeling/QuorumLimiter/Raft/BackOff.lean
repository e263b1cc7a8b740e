import QuorumLimiter.Raft.Identity
import QuorumLimiter.Raft.Redelivery
import QuorumLimiter.Raft.Safety
import QuorumLimiter.Raft.Sender

/-!
Back-off: a leader whose request a follower refuses moves `nextIndex` as the
conflict hints say and asks again. Each refusal lowers `nextIndex`, because all
entries of one term come from one leader; so the follower accepts at last, and
then has the leader's log.
-/

namespace QuorumLimiter

open ReplicatedLog

variable {σ ρ : Type}

def lastAppend (calls : List Call) : Option AppendEntriesRequest :=
  match calls.getLast? with
  | some ⟨_, _, _, .append req⟩ => some req
  | _ => none

/-- The leader sends a request and the follower handles it, again and again until
one is accepted. The result is the `nextIndex` of each request and the two nodes at
the end; `none` when `rounds` are not enough. -/
def backOff (apply : Option (ApplyFunc σ ρ)) (peer : String) :
    Nat → Local σ ρ → Local σ ρ → Option (List Nat × Local σ ρ × Local σ ρ)
  | 0, _, _ => none
  | rounds + 1, leader, follower =>
      let (_, _, sent) := (replicateToPeer peer).run Plan.smooth [] leader
      match lastAppend sent.calls with
      | none => none
      | some req =>
          match receive apply follower req with
          | (none, _) => none
          | (some resp, answered) =>
              if resp.success then some ([leader.node.nextIndex peer], sent, answered)
              else
                let (_, _, backed) := (backupNextIndex peer resp).run Plan.smooth [] sent
                (backOff apply peer rounds backed answered).map fun (visited, ends) =>
                  (leader.node.nextIndex peer :: visited, ends)

/-- An entry of a term the ledger has there or above is the ledger's own. -/
def OneWriter (log ledger : List LogEntry) : Prop :=
  ∀ low high held wrote, low ≤ high → log[low]? = some held → ledger[high]? = some wrote →
    held.term = wrote.term → log.take (low + 1) = ledger.take (low + 1)

/-- A leader with the ledger as its log, and a node that will heed its requests. -/
structure Facing (ledger log : List LogEntry) (leader follower : Local σ ρ) : Prop where
  leads : leader.node.role = .leader
  stores : StoresLog leader.store.log ledger
  cached : leader.node.lastLogIndex = ledger.length
  trailing : Trailing ledger leader.node.currentTerm follower log
  cluster : follower.node.clusterID = leader.node.clusterID
  written : OneWriter log ledger

section Rounds

variable {ledger log : List LogEntry} {leader follower : Local σ ρ}

def Local.requestTo (s : Local σ ρ) (peer : String) : AppendEntriesRequest :=
  s.node.appendRequest peer (s.store.termBefore (s.node.nextFor peer - 1))
    (if s.node.nextFor peer ≤ s.node.lastLogIndex then
      s.store.entries (s.node.nextFor peer) s.node.lastLogIndex else [])

theorem lastIndexIn_found (store : Store σ) (term index : Nat)
    (found : 0 < lastIndexIn store term index) :
    ∃ entry, store.entry (lastIndexIn store term index) = some entry ∧ entry.term = term := by
  induction index with
  | zero => exact absurd found (Nat.lt_irrefl 0)
  | succ index ih =>
      unfold lastIndexIn at found ⊢
      cases present : store.entry (index + 1) with
      | none =>
          rw [present] at found
          exact absurd found (Nat.lt_irrefl 0)
      | some entry =>
          rw [present] at found
          dsimp only at found ⊢
          by_cases same : entry.term = term
          · rw [if_pos same]
            exact ⟨entry, present, same⟩
          · rw [if_neg same] at found ⊢
            exact ih found

theorem firstIndexIn_le (store : Store σ) (term index : Nat) :
    firstIndexIn store term index ≤ index := by
  induction index with
  | zero => exact Nat.le_refl 0
  | succ index ih =>
      cases index with
      | zero => exact Nat.le_refl 1
      | succ index =>
          unfold firstIndexIn
          split
          · split
            · omega
            · exact Nat.le_refl _
          · exact Nat.le_refl _

theorem lastIndexIn_below (stores : StoresLog leader.store.log ledger)
    (written : OneWriter log ledger) {index bound : Nat} {held wrote : LogEntry}
    (found : log[index]? = some held) (there : ledger[index]? = some wrote)
    (differs : held.term ≠ wrote.term) :
    lastIndexIn leader.store held.term bound ≤ index := by
  by_contra above
  obtain ⟨entry, present, term⟩ := lastIndexIn_found leader.store held.term bound (by omega)
  obtain ⟨high, same⟩ : ∃ high, lastIndexIn leader.store held.term bound = high + 1 :=
    ⟨_, (Nat.sub_add_cancel (by omega)).symm⟩
  rw [same, storesLog_entry stores] at present
  have agrees := written index high held entry (by omega) found present term.symm
  rw [getElem?_of_take _ _ index (index + 1) (by omega) agrees, there] at found
  cases found
  exact differs rfl

theorem hintedNext_lower {req : AppendEntriesRequest} {resp : AppendEntriesResponse}
    (stores : StoresLog leader.store.log ledger) (written : OneWriter log ledger)
    (stored : StoresLog follower.store.log log) (cached : follower.node.lastLogIndex = log.length)
    (slice : Slice ledger req) (lacks : ¬ HoldsPrevious req follower)
    (hints : (resp.conflictTerm, resp.conflictIndex) = follower.conflictHints req) :
    0 < req.prevLogIndex ∧ hintedNext leader resp ≤ req.prevLogIndex := by
  have positive : 0 < req.prevLogIndex := by
    by_contra zero
    exact lacks ⟨by omega, fun above => absurd above zero⟩
  refine ⟨positive, ?_⟩
  unfold Local.conflictHints at hints
  unfold hintedNext
  by_cases short : req.prevLogIndex > follower.node.lastLogIndex
  · rw [if_pos short, Prod.mk.injEq] at hints
    rw [if_pos hints.1, hints.2]
    omega
  · rw [if_neg short] at hints
    obtain ⟨before, same⟩ : ∃ before, req.prevLogIndex = before + 1 :=
      ⟨req.prevLogIndex - 1, by omega⟩
    have found : log[before]? = some log[before] := List.getElem?_eq_getElem (by omega)
    obtain ⟨wrote, there, term⟩ := slice.prevTerm positive
    have entry : follower.store.entry req.prevLogIndex = some log[before] := by
      rw [same, storesLog_entry stored]
      exact found
    rw [same, Nat.add_sub_cancel] at there
    have differs : log[before].term ≠ wrote.term := by
      intro matched
      exact lacks ⟨by omega, fun _ => ⟨_, entry, matched.trans term⟩⟩
    rw [entry] at hints
    obtain ⟨conflictTerm, conflictIndex⟩ := Prod.mk.inj hints
    have first := firstIndexIn_le follower.store log[before].term req.prevLogIndex
    have low : resp.conflictIndex ≤ req.prevLogIndex := by
      rw [conflictIndex]
      split
      · exact Nat.le_refl _
      · exact first
    have last : lastIndexIn leader.store resp.conflictTerm leader.node.lastLogIndex ≤ before := by
      rw [conflictTerm]
      exact lastIndexIn_below stores written found there differs
    split
    · omega
    · split
      · omega
      · omega

def Local.asked (s : Local σ ρ) (peer : String) : Local σ ρ :=
  s.append peer (s.store.termBefore (s.node.nextFor peer - 1))

theorem lastAppend_asked (peer : String) :
    lastAppend (leader.asked peer).calls = some (leader.requestTo peer) := by
  simp [lastAppend, Local.asked, Local.append, Local.send, Local.requestTo]

theorem backOff_round (apply : Option (ApplyFunc σ ρ)) (peer : String) (rounds : Nat)
    {resp : AppendEntriesResponse} (leads : leader.node.role = .leader)
    (answered : (receive apply follower (leader.requestTo peer)).1 = some resp) :
    backOff apply peer (rounds + 1) leader follower =
      if resp.success then
        some ([leader.node.nextIndex peer], leader.asked peer,
          (receive apply follower (leader.requestTo peer)).2)
      else
        (backOff apply peer rounds
          ((leader.asked peer).onNode (setNextIndex peer (hintedNext leader resp)))
          (receive apply follower (leader.requestTo peer)).2).map fun (visited, ends) =>
            (leader.node.nextIndex peer :: visited, ends) := by
  have sends : Ends (replicateToPeer peer) [] leader fun _ after => after = leader.asked peer :=
    ends_replicateToPeer peer leads
  obtain ⟨_, made, _, ran, rfl⟩ := ends_run sends
  have backs : Ends (backupNextIndex peer resp) [] (leader.asked peer) _ :=
    ends_backupNextIndex peer resp
  obtain ⟨_, read, after, backed, same⟩ := ends_run backs
  have last : ((backupNextIndex peer resp).1 Plan.smooth [] (leader.asked peer)).2.2 = after :=
    congrArg (·.2.2) backed
  have received : receive apply follower (leader.requestTo peer) =
      (some resp, (receive apply follower (leader.requestTo peer)).2) := Prod.ext answered rfl
  rw [backOff, ran]
  dsimp only
  rw [lastAppend_asked]
  dsimp only
  rw [received]
  dsimp only
  rw [last, same]
  rfl

theorem requestTo_previous (s : Local σ ρ) (peer : String)
    (positive : 1 ≤ s.node.nextIndex peer) :
    (s.requestTo peer).prevLogIndex = s.node.nextIndex peer - 1 := by
  change s.node.nextFor peer - 1 = _
  rw [Node.nextFor, if_neg (by omega)]

theorem requestTo_whole {s : Local σ ρ} (stores : StoresLog s.store.log log)
    (cached : s.node.lastLogIndex = log.length) (peer : String)
    (positive : 1 ≤ s.node.nextIndex peer) (bound : s.node.nextIndex peer ≤ log.length + 1) :
    (s.requestTo peer).prevLogIndex + (s.requestTo peer).entries.length = log.length := by
  have next : s.node.nextFor peer = s.node.nextIndex peer := if_neg (by omega)
  change s.node.nextFor peer - 1 + List.length (if _ then _ else _) = _
  rw [next, cached]
  by_cases some : s.node.nextIndex peer ≤ log.length
  · rw [if_pos some, storesLog_entries stores _ _ positive, List.length_take, List.length_drop]
    omega
  · rw [if_neg some, List.length_nil]
    omega

theorem facing_slice (facing : Facing ledger log leader follower) (peer : String)
    (bound : leader.node.nextIndex peer ≤ ledger.length + 1) :
    Slice ledger (leader.requestTo peer) :=
  slice_built facing.stores List.prefix_rfl (consecutive_stored facing.stores) facing.cached peer
    (by rw [facing.cached]; exact bound)

theorem facing_refused {peer : String} {resp : AppendEntriesResponse}
    (apply : Option (ApplyFunc σ ρ)) (facing : Facing ledger log leader follower)
    (positive : 1 ≤ leader.node.nextIndex peer)
    (bound : leader.node.nextIndex peer ≤ ledger.length + 1)
    (answered : (receive apply follower (leader.requestTo peer)).1 = some resp)
    (denied : resp.success = false) :
    hintedNext leader resp < leader.node.nextIndex peer ∧
      Facing ledger log leader (receive apply follower (leader.requestTo peer)).2 := by
  have slice := facing_slice facing peer bound
  have next := requestTo_previous leader peer positive
  obtain ⟨given, same, ⟨_, _, foreign⟩ | ⟨heeded, answers, explains⟩⟩ :=
    receive_spec apply follower (leader.requestTo peer)
  · exact absurd ⟨rfl, facing.cluster.symm, facing.trailing.reached⟩ foreign
  rw [answered] at same
  cases same
  obtain ⟨sameLog, sameTerm, cluster, tip, _⟩ :=
    followed_facts heeded.2.2 (leader.requestTo peer).leaderID
  rw [answers.refused denied]
  generalize (follower.advanceTerm (leader.requestTo peer).term).follow
    (leader.requestTo peer).leaderID = followed at *
  have lacks : ¬ HoldsPrevious (leader.requestTo peer) followed := by
    intro held
    simp [explains.success held] at denied
  have stored : StoresLog followed.store.log log := sameLog ▸ facing.trailing.stores
  have tipped := tip.trans facing.trailing.cached
  obtain ⟨above, lower⟩ := hintedNext_lower facing.stores facing.written stored tipped slice lacks
    (explains.hints denied)
  exact ⟨by omega, facing.leads, facing.stores, facing.cached,
    ⟨stored, tipped, facing.trailing.matching, Nat.le_of_eq sameTerm⟩,
    cluster.trans facing.cluster, facing.written⟩

theorem facing_accepted {peer : String} {resp : AppendEntriesResponse}
    (apply : Option (ApplyFunc σ ρ)) (facing : Facing ledger log leader follower)
    (positive : 1 ≤ leader.node.nextIndex peer)
    (bound : leader.node.nextIndex peer ≤ ledger.length + 1)
    (answered : (receive apply follower (leader.requestTo peer)).1 = some resp)
    (success : resp.success = true) :
    ∃ reached, StoresLog (receive apply follower (leader.requestTo peer)).2.store.log reached ∧
      Holds reached ledger ledger.length := by
  obtain ⟨reached, trailing, _, accepted⟩ :=
    receive_trailing apply facing.trailing (facing_slice facing peer bound) rfl
  have holds := (accepted resp answered success).2.holds
  have whole := requestTo_whole facing.stores facing.cached peer positive bound
  rw [whole] at holds
  exact ⟨reached, trailing.stores, holds⟩

theorem backOff_ends (apply : Option (ApplyFunc σ ρ)) (peer : String) (rounds : Nat)
    (facing : Facing ledger log leader follower) (positive : 1 ≤ leader.node.nextIndex peer)
    (bound : leader.node.nextIndex peer ≤ ledger.length + 1)
    (enough : leader.node.nextIndex peer ≤ rounds) :
    ∃ visited led followed reached,
      backOff apply peer rounds leader follower = some (visited, led, followed) ∧
      visited.head? = some (leader.node.nextIndex peer) ∧
      (∀ next ∈ visited, next ≤ leader.node.nextIndex peer) ∧ visited.Pairwise (· > ·) ∧
      StoresLog followed.store.log reached ∧ Holds reached ledger ledger.length := by
  induction rounds generalizing leader follower with
  | zero => omega
  | succ rounds ih =>
      obtain ⟨resp, answered, _⟩ := receive_spec apply follower (leader.requestTo peer)
      rw [backOff_round apply peer rounds facing.leads answered]
      cases success : resp.success with
      | true =>
          obtain ⟨reached, stored, holds⟩ :=
            facing_accepted apply facing positive bound answered success
          exact ⟨_, _, _, reached, rfl, rfl, by simp, List.pairwise_singleton _ _, stored, holds⟩
      | false =>
          obtain ⟨lower, still⟩ := facing_refused apply facing positive bound answered success
          have least : 1 ≤ hintedNext leader resp := Nat.le_max_left _ _
          generalize backed : (leader.asked peer).onNode
            (setNextIndex peer (hintedNext leader resp)) = again
          have next : again.node.nextIndex peer = hintedNext leader resp := by
            rw [← backed]
            exact if_pos rfl
          have facingAgain : Facing ledger log again
              (receive apply follower (leader.requestTo peer)).2 := by
            rw [← backed]
            exact ⟨still.leads, still.stores, still.cached, still.trailing, still.cluster,
              still.written⟩
          obtain ⟨visited, led, followed, reached, ended, _, within, falling, stored, holds⟩ :=
            ih facingAgain (by omega) (by omega) (by omega)
          rw [next] at within
          refine ⟨_ :: visited, led, followed, reached, by rw [ended]; rfl, rfl, ?_, ?_, stored,
            holds⟩
          · intro index member
            rcases List.mem_cons.mp member with rfl | later
            · exact Nat.le_refl _
            · have := within index later
              omega
          · refine List.pairwise_cons.mpr ⟨?_, falling⟩
            intro index later
            have := within index later
            omega

end Rounds

section Cluster

variable {c : Cluster σ ρ} {w : World σ ρ} {g : History} {counted : String → Finset String}

theorem replicated_facing (valid : Replicated c w g counted) (named : Identified c w)
    {id peer : String} {node other : Node} (up : (w.members id).node = some node)
    (leads : node.role = .leader) (running : (w.members peer).node = some other)
    (term : other.currentTerm ≤ node.currentTerm) (next : Nat) :
    Facing (g.log id) (g.log peer) (w.view id (setNextIndex peer next node))
      (w.view peer other) := by
  have written : OneWriter (g.log peer) (g.log id) := by
    intro low high held wrote order found there same
    exact attributed_below (valid.logs.sound.log_attributed peer)
      (valid.logs.sound.log_attributed id) low high order held wrote found there same
  have trailing : Trailing (g.log id) node.currentTerm (w.view peer other) (g.log peer) :=
    ⟨valid.logs.stores peer, (valid.logs.nodes peer other running).lastIndex,
      fun index held wrote => written index index held wrote (Nat.le_refl _), term⟩
  exact ⟨leads, valid.logs.stores id, (valid.logs.nodes id node up).lastIndex, trailing,
    (named.running peer other running).trans (named.running id node up).symm, written⟩

/-- Back-off from any `nextIndex` ends, lowers it with every refusal, and leaves the
follower with the leader's log. -/
theorem backOff_terminates_agreeing (c : Cluster σ ρ) (w : World σ ρ)
    (reachable : c.Reachable Plan.clean w) (id peer : String) (node other : Node)
    (up : (w.members id).node = some node) (leads : node.role = .leader)
    (running : (w.members peer).node = some other) (term : other.currentTerm ≤ node.currentTerm)
    (next : Nat) (positive : 1 ≤ next) (bound : next ≤ node.lastLogIndex + 1) :
    ∃ visited leader follower,
      backOff c.apply peer next (w.view id (setNextIndex peer next node)) (w.view peer other) =
        some (visited, leader, follower) ∧
      visited.head? = some next ∧ visited.Pairwise (· > ·) ∧
      ∀ index, 1 ≤ index → index ≤ node.lastLogIndex →
        ∃ entry, (w.members id).store.entry index = some entry ∧
          follower.store.entry index = some entry := by
  obtain ⟨g, counted, valid⟩ := replicated_reachable reachable
  have facing := replicated_facing valid (identified_reachable reachable) up leads running term next
  have tip := (valid.logs.nodes id node up).lastIndex
  have start : (w.view id (setNextIndex peer next node)).node.nextIndex peer = next := if_pos rfl
  obtain ⟨visited, leader, follower, reached, ended, first, _, falling, stored, holds⟩ :=
    backOff_ends c.apply peer next facing (by rw [start]; exact positive)
      (by rw [start, ← tip]; exact bound) (Nat.le_of_eq start)
  refine ⟨visited, leader, follower, ended, first.trans (congrArg some start), falling, ?_⟩
  intro index least most
  obtain ⟨before, rfl⟩ : ∃ before, index = before + 1 := ⟨index - 1, by omega⟩
  rw [storesLog_entry (valid.logs.stores id), storesLog_entry stored,
    getElem?_of_take _ _ before _ (by omega) holds.2]
  exact ⟨_, List.getElem?_eq_getElem (by omega), List.getElem?_eq_getElem (by omega)⟩

end Cluster

/-- The first leader and a node that has not got its first entry. -/
theorem backOff_terminates_agreeing_trio :
    ∃ w node other, trio.Reachable Plan.clean w ∧ (w.members "a").node = some node ∧
      (w.members "b").node = some other ∧ w.entry "b" 1 = none ∧
      ∃ visited leader follower,
        backOff none "b" 2 (w.view "a" (setNextIndex "b" 2 node)) (w.view "b" other) =
          some (visited, leader, follower) ∧
        visited.head? = some 2 ∧ visited.Pairwise (· > ·) ∧
        ∃ entry, (w.members "a").store.entry 1 = some entry ∧
          follower.store.entry 1 = some entry := by
  obtain ⟨w, reachable, seen⟩ := smoothly_reached trio smooth_clean electFirst
    (fun w => ((w.members "a").node.map fun node =>
      (node.role, node.currentTerm, node.lastLogIndex), w.standing "b", w.entry "b" 1))
    (by decide +kernel : _ = some (some (.leader, 1, 1), some (.follower, 1), none))
  obtain ⟨first, second, missing⟩ : _ ∧ _ ∧ _ := by simpa only [Prod.mk.injEq] using seen
  obtain ⟨node, up, facts⟩ := Option.map_eq_some_iff.mp first
  obtain ⟨other, running, standing⟩ := Option.map_eq_some_iff.mp second
  obtain ⟨leads, term, tip⟩ : node.role = .leader ∧ node.currentTerm = 1 ∧
      node.lastLogIndex = 1 := by simpa only [Prod.mk.injEq] using facts
  have followed : other.currentTerm = 1 := (Prod.mk.inj standing).2
  obtain ⟨visited, leader, follower, ended, head, falling, agrees⟩ :=
    backOff_terminates_agreeing trio w reachable "a" "b" node other up leads running (by omega) 2
      (by omega) (by omega)
  exact ⟨w, node, other, reachable, up, running, missing, visited, leader, follower, ended, head,
    falling, agrees 1 (Nat.le_refl _) (by omega)⟩

end QuorumLimiter
