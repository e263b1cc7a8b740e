import QuorumLimiter.Raft.Replication

/-!
The safety theorems of the log: what is committed stays, every later leader has
it, and logs that share an entry share everything before it. Store calls do not
fail here, but a node may crash at any of them.
-/

namespace QuorumLimiter

open Relation Voting ReplicatedLog Simulation

variable {σ ρ : Type} {c : Cluster σ ρ} {w : World σ ρ} {g : History}
  {counted : String → Finset String}

def World.entry (w : World σ ρ) (id : String) (index : Nat) : Option LogEntry :=
  (w.members id).store.entry index

/-- The node's commit index, in memory or on disk, has reached `index`. -/
def World.Committed (w : World σ ρ) (id : String) (index : Nat) : Prop :=
  index ≤ (w.members id).store.commitIndex ∨
    ∃ node, (w.members id).node = some node ∧ index ≤ node.commitIndex

section Runs

theorem move_commitIndex {apply : Option (ApplyFunc σ ρ)} {plan : Plan} {inp : Input}
    {s t : Local σ ρ} (loaded : s.node.commitIndex = s.store.commitIndex)
    (move : Move apply plan inp s t) : s.store.commitIndex ≤ t.store.commitIndex := by
  cases move with
  | commit index rule => exact Nat.le_of_lt (loaded ▸ rule.1)
  | stepDown term leaderID =>
      rw [follow_store, Local.advanceTerm]
      split <;> exact Nat.le_refl _
  | applyNext after entry result _ _ applied =>
      exact Nat.le_of_eq (sameReplica_deliver applied).commit.symm
  | _ => exact Nat.le_refl _

theorem member_commitIndex {plan : Plan} {inp : Input} {id : String} {member : Member σ}
    (valid : Replicated c w g counted) (turn : MemberTurn c plan inp w id member) :
    (w.members id).store.commitIndex ≤ member.store.commitIndex := by
  cases turn with
  | move node s up arrived move =>
      exact move_commitIndex (valid.logs.nodes id node up).commit move
  | _ => exact Nat.le_refl _

theorem replicated_later {after : World σ ρ} (valid : Replicated c w g counted)
    (run : c.Later Plan.clean w after) :
    ∃ reached recounted, Replicated c after reached recounted ∧ Extends g reached ∧
      ∀ id, (w.members id).store.commitIndex ≤ (after.members id).store.commitIndex := by
  obtain ⟨⟨reached, recounted⟩, holds, extended, grown⟩ := run_answered
    (fun w (state : History × (String → Finset String)) => Replicated c w state.1 state.2)
    (fun before after => Extends before.2.1 after.2.1 ∧ ∀ id,
      (before.1.members id).store.commitIndex ≤ (after.1.members id).store.commitIndex)
    (fun _ => ⟨extends_refl _, fun _ => Nat.le_refl _⟩)
    (fun _ _ _ left right => ⟨extends_trans left.1 right.1,
      fun id => Nat.le_trans (left.2 id) (right.2 id)⟩)
    (by
      rintro w after ⟨g, counted⟩ ⟨plan, inp, clean, turn⟩ valid
      obtain ⟨reached, recounted, holds, extended⟩ := replicated_turn clean valid turn
      exact ⟨(reached, recounted), holds, extended,
        fun id => member_commitIndex valid (turn_member turn id)⟩)
    (later_taken run) (g := (g, counted)) valid
  exact ⟨reached, recounted, holds, extended, grown⟩

theorem replicated_taken (path : ReflTransGen (Taken c Plan.clean) c.init w) :
    ∃ g counted, Replicated c w g counted := by
  apply run_invariant (fun w => ∃ g counted, Replicated c w g counted) _ path
  · exact ⟨_, _, votes_init c, logs_init c⟩
  · rintro _ _ ⟨plan, inp, clean, turn⟩ ⟨g, counted, valid⟩
    obtain ⟨reached, recounted, holds, _⟩ := replicated_turn clean valid turn
    exact ⟨reached, recounted, holds⟩

theorem replicated_reachable (reachable : c.Reachable Plan.clean w) :
    ∃ g counted, Replicated c w g counted :=
  replicated_taken (later_taken reachable)

end Runs

section Committed

theorem committed_store (valid : Replicated c w g counted) {id : String} {index : Nat}
    (committed : w.Committed id index) : index ≤ (w.members id).store.commitIndex := by
  rcases committed with stored | ⟨node, up, reached⟩
  · exact stored
  · rw [← (valid.logs.nodes id node up).commit]
    exact reached

theorem committed_settled (valid : Replicated c w g counted) {id : String} {index : Nat}
    (committed : w.Committed id index) : Settled g (g.log id) (g.term id) index :=
  settled_shorter (valid.logs.commits id) (committed_store valid committed)

theorem leads_log (valid : Replicated c w g counted) {id : String} {term : Nat}
    (leads : w.Leads id term) :
    g.term id = term ∧ (g.elected term).isSome ∧ g.log id = g.ledger term := by
  obtain ⟨node, up, leader, rfl⟩ := leads
  obtain ⟨voters, won, ledger⟩ := replicated_leader valid up leader
  have current := replicated_term valid up
  refine ⟨current, ?_, ledger⟩
  rw [← current, won]
  rfl

end Committed

/-- Entries at or below a commit index are the same on every node at all times, and
none of them is ever truncated or overwritten. -/
theorem state_machine_safety (c : Cluster σ ρ) (w later : World σ ρ)
    (reachable : c.Reachable Plan.clean w) (run : c.Later Plan.clean w later) :
    (∀ first second index, 1 ≤ index → w.Committed first index → later.Committed second index →
      ∃ entry, w.entry first index = some entry ∧ later.entry second index = some entry) ∧
    ∀ id index, w.Committed id index →
      later.Committed id index ∧ later.entry id index = w.entry id index := by
  obtain ⟨g, counted, valid⟩ := replicated_reachable reachable
  obtain ⟨after, recounted, holds, extended, grown⟩ := replicated_later valid run
  have sound := valid.logs.sound
  have agree (first second : String) (index : Nat) (early : w.Committed first index)
      (late : later.Committed second index) : w.entry first index = later.entry second index := by
    have kept : Settled after (g.log first) (g.term first) index :=
      settled_extends sound extended (committed_settled valid early) (Nat.le_refl _) rfl
    have same := settled_agree holds.logs.sound kept (committed_settled holds late)
    exact storesLog_agree (valid.logs.stores first) (holds.logs.stores second) index index same
      (Nat.le_refl _)
  refine ⟨?_, ?_⟩
  · intro first second index positive early late
    have same := agree first second index early late
    have reach := settled_length sound (committed_settled valid early)
    obtain ⟨before, rfl⟩ : ∃ before, index = before + 1 := ⟨index - 1, by omega⟩
    have present : w.entry first (before + 1) = some ((g.log first)[before]) :=
      (storesLog_entry (valid.logs.stores first) before).trans (List.getElem?_eq_getElem reach)
    exact ⟨_, present, same ▸ present⟩
  · intro id index committed
    have stays : later.Committed id index :=
      Or.inl (Nat.le_trans (committed_store valid committed) (grown id))
    exact ⟨stays, (agree id id index committed stays).symm⟩

theorem state_machine_safety_trio : ∃ w later, trio.Reachable Plan.clean w ∧
    trio.Later Plan.clean w later ∧ ∃ entry, w.entry "a" 1 = some entry ∧
      later.entry "b" 1 = some entry := by
  obtain ⟨w, later, reachable, run, before, after⟩ := smoothly_reaches trio smooth_clean commitFirst
    [.deliver 4] (fun w => (w.members "a").store.commitIndex)
    (fun w => (w.members "b").store.commitIndex) (by decide +kernel : _ = some 1)
    (by decide +kernel : _ = some 1)
  exact ⟨w, later, reachable, run, (state_machine_safety trio w later reachable run).1 "a" "b" 1
    (Nat.le_refl _) (Or.inl (Nat.le_of_eq before.symm)) (Or.inl (Nat.le_of_eq after.symm))⟩

/-- What a node has committed stays on a quorum of stores, up or crashed, at that
moment and at every later one. -/
theorem committed_on_quorum (c : Cluster σ ρ) (w later : World σ ρ)
    (reachable : c.Reachable Plan.clean w) (run : c.Later Plan.clean w later) (id : String)
    (index : Nat) (positive : 1 ≤ index) (committed : w.Committed id index) :
    ∃ entry, w.entry id index = some entry ∧ ∃ backers : Finset String,
      backers ⊆ c.ids.toFinset ∧ c.ids.length / 2 + 1 ≤ backers.card ∧
        ∀ member ∈ backers, later.entry member index = some entry := by
  obtain ⟨g, counted, valid⟩ := replicated_reachable reachable
  obtain ⟨after, recounted, holds, extended, _⟩ := replicated_later valid run
  have settled := committed_settled valid committed
  have reach := settled_length valid.logs.sound settled
  obtain ⟨before, rfl⟩ : ∃ before, index = before + 1 := ⟨index - 1, by omega⟩
  have present : w.entry id (before + 1) = some ((g.log id)[before]) :=
    (storesLog_entry (valid.logs.stores id) before).trans (List.getElem?_eq_getElem reach)
  refine ⟨_, present, ?_⟩
  have kept : Settled after (g.log id) (g.term id) (before + 1) :=
    settled_extends valid.logs.sound extended settled (Nat.le_refl _) rfl
  rcases kept with zero | ⟨term, _, chosen, same⟩
  · omega
  · -- the term that chose the index still has its quorum of acknowledgements
    obtain ⟨backers, ⟨inside, large⟩, held⟩ :=
      chosen_held holds.logs.sound term (Nat.lt_of_lt_of_le (Nat.succ_pos _) chosen)
    rw [List.toFinset_card_of_nodup c.distinct] at large
    refine ⟨backers, inside, large, ?_⟩
    intro member belongs
    have agrees := take_shorter _ _ _ _ chosen (held member belongs)
    rw [← present]
    exact storesLog_agree (holds.logs.stores member) (valid.logs.stores id) (before + 1)
      (before + 1) (agrees.trans same.symm) (Nat.le_refl _)

theorem committed_on_quorum_trio : ∃ w later, trio.Reachable Plan.clean w ∧
    trio.Later Plan.clean w later ∧ (later.members "a").node.isNone ∧
    ∃ entry, w.entry "a" 1 = some entry ∧ ∃ backers : Finset String,
      backers ⊆ trio.ids.toFinset ∧ 2 ≤ backers.card ∧
        ∀ member ∈ backers, later.entry member 1 = some entry := by
  obtain ⟨w, later, reachable, run, before, after⟩ := smoothly_reaches trio smooth_clean commitFirst
    [.crash "a"] (fun w => (w.members "a").store.commitIndex)
    (fun w => (w.members "a").node.isNone) (by decide +kernel : _ = some 1)
    (by decide +kernel : _ = some true)
  exact ⟨w, later, reachable, run, after, committed_on_quorum trio w later reachable run "a" 1
    (Nat.le_refl _) (Or.inl (Nat.le_of_eq before.symm))⟩

/-- What a node has committed in its stored term, every leader of a later term holds,
whichever of the two is observed first. A leader has stored the term it leads, so this
is about all that leaders commit, also in an event they do not survive. -/
theorem leader_holds_committed (c : Cluster σ ρ) (w v : World σ ρ)
    (reachable : c.Reachable Plan.clean w) (reached : c.Reachable Plan.clean v)
    (ordered : c.Later Plan.clean w v ∨ c.Later Plan.clean v w) (first second : String)
    (later index : Nat) (committed : w.Committed first index)
    (above : (w.members first).store.currentTerm < later) (succeeds : v.Leads second later) :
    v.entry second index = w.entry first index := by
  rcases ordered with run | run
  · obtain ⟨g, counted, valid⟩ := replicated_reachable reachable
    obtain ⟨after, recounted, holds, extended, _⟩ := replicated_later valid run
    obtain ⟨_, won, ledger⟩ := leads_log holds succeeds
    have kept : Settled after (g.log first) (g.term first) index :=
      settled_extends valid.logs.sound extended (committed_settled valid committed)
        (Nat.le_refl _) rfl
    rw [← valid.votes.term first] at above
    have same := settled_ledger holds.logs.sound kept later (Nat.le_of_lt above) won
    rw [← ledger] at same
    exact storesLog_agree (holds.logs.stores second) (valid.logs.stores first) index index same
      (Nat.le_refl _)
  · obtain ⟨g, counted, valid⟩ := replicated_reachable reached
    obtain ⟨after, recounted, holds, extended, _⟩ := replicated_later valid run
    obtain ⟨_, won, ledger⟩ := leads_log valid succeeds
    obtain ⟨wonLater, start, _⟩ := grows_isSome g after extended.1 later won
    have settled := committed_settled holds committed
    rw [← holds.votes.term first] at above
    have same := settled_start holds.logs.sound settled later above wonLater
    rw [start] at same
    -- the later leader started from a log that already reached `index`
    have reach : index ≤ (g.start later).length :=
      length_of_take _ _ _ (settled_length holds.logs.sound settled) same
    rw [← take_of_grows _ _ _ (valid.logs.sound.ledger_grows later won) reach, ← ledger] at same
    exact storesLog_agree (valid.logs.stores second) (holds.logs.stores first) index index same
      (Nat.le_refl _)

/-- The node dies once it has stored a commit index. -/
def Plan.cutShort : Plan := fun calls => if .setCommitIndex ∈ calls.tail then .crash else .pass

theorem cutShort_clean : Plan.cutShort.clean := by
  intro calls
  unfold Plan.cutShort
  split <;> rintro ⟨⟩

/-- The first leader dies in the event in which it commits its first entry. -/
theorem leader_holds_committed_trio : ∃ w v, trio.Later Plan.clean w v ∧
    (w.members "a").node = none ∧ (w.members "a").store.currentTerm = 1 ∧ w.Committed "a" 1 ∧
    v.Leads "b" 2 ∧ v.entry "b" 1 = w.entry "a" 1 := by
  have played : ((trio.steps trio.init (smoothly (electFirst ++ [.deliver 2]))).bind fun u =>
      (trio.step Plan.cutShort u (.respond 2 1)).bind fun w =>
        (trio.steps w (smoothly [.restart "c", .electionTimeout "b", .deliver 5, .respond 5 2])).map
          fun v => ((w.members "a").node.isNone, (w.members "a").store.currentTerm,
            (w.members "a").store.commitIndex, v.standing "b")) =
      some (true, 1, 1, some (.leader, 2)) := by decide +kernel
  obtain ⟨u, ran, rest⟩ := Option.bind_eq_some_iff.mp played
  obtain ⟨w, stepped, rest⟩ := Option.bind_eq_some_iff.mp rest
  obtain ⟨v, more, seen⟩ := Option.map_eq_some_iff.mp rest
  simp only [Prod.mk.injEq, Option.isNone_iff_eq_none] at seen
  obtain ⟨down, term, commit, standing⟩ := seen
  have reachable : trio.Reachable Plan.clean w :=
    (smoothly_later trio _ _ u smooth_clean ran).tail
      ⟨Plan.cutShort, .respond 2 1, cutShort_clean, stepped⟩
  have run : trio.Later Plan.clean w v := smoothly_later trio _ w v smooth_clean more
  have committed : w.Committed "a" 1 := Or.inl (Nat.le_of_eq commit.symm)
  have succeeds := leads_of_standing standing
  exact ⟨w, v, run, down, term, committed, succeeds, leader_holds_committed trio w v reachable
    (reachable.trans run) (Or.inl run) "a" "b" 2 1 committed (by rw [term]; decide) succeeds⟩

/-- A stored log runs from the sentinel to its last index without gaps, each entry
at its own index and in term order, and the node has its last index in memory. -/
structure WellFormed (node : Option Node) (store : Store σ) : Prop where
  sentinel : store.entry 0 = some logSentinel
  contiguous : ∀ index, (store.entry index).isSome ↔ index ≤ store.lastIndex
  indexed : ∀ index entry, store.entry index = some entry → entry.index = index
  sorted : ∀ early late first second, early ≤ late → store.entry early = some first →
    store.entry late = some second → first.term ≤ second.term
  cached : ∀ n, node = some n → n.lastLogIndex = store.lastIndex

theorem replicated_wellFormed (valid : Replicated c w g counted) (id : String) :
    WellFormed (w.members id).node (w.members id).store := by
  have stores := valid.logs.stores id
  have last := storesLog_lastIndex stores
  refine ⟨storesLog_sentinel stores, ?_, ?_, ?_, ?_⟩
  · intro index
    cases index with
    | zero => simp [storesLog_sentinel stores]
    | succ index =>
        rw [storesLog_entry stores, last, Option.isSome_iff_ne_none, ne_eq,
          List.getElem?_eq_none_iff, Nat.not_le, Nat.succ_le_iff]
  · intro index entry found
    cases index with
    | zero =>
        rw [storesLog_sentinel stores] at found
        cases found
        rfl
    | succ index =>
        rw [storesLog_entry stores] at found
        exact stores.indexed index entry found
  · intro early late first second order earlyFound lateFound
    cases early with
    | zero =>
        rw [storesLog_sentinel stores] at earlyFound
        cases earlyFound
        exact Nat.zero_le _
    | succ early =>
        obtain ⟨before, rfl⟩ : ∃ before, late = before + 1 := ⟨late - 1, by omega⟩
        rw [storesLog_entry stores] at earlyFound lateFound
        exact attributed_sorted valid.logs.sound _ (valid.logs.sound.log_attributed id) early before
          first second (by omega) earlyFound lateFound
  · intro node up
    rw [(valid.logs.nodes id node up).lastIndex, last]

/-- Every log is well formed, and two logs that hold entries of one index and term
are the same up to that index. -/
theorem logs_match (c : Cluster σ ρ) (w : World σ ρ) (reachable : c.Reachable Plan.clean w) :
    (∀ id, WellFormed (w.members id).node (w.members id).store) ∧
    ∀ left right index first second, w.entry left index = some first →
      w.entry right index = some second → first.term = second.term →
      ∀ below, below ≤ index → w.entry left below = w.entry right below := by
  obtain ⟨g, counted, valid⟩ := replicated_reachable reachable
  refine ⟨replicated_wellFormed valid, ?_⟩
  intro left right index first second leftFound rightFound same below bound
  have leftStores := valid.logs.stores left
  have rightStores := valid.logs.stores right
  cases index with
  | zero =>
      obtain rfl : below = 0 := by omega
      exact (storesLog_sentinel leftStores).trans (storesLog_sentinel rightStores).symm
  | succ index =>
      have agrees := log_matching valid.logs.sound left right index first second
        ((storesLog_entry leftStores index).symm.trans leftFound)
        ((storesLog_entry rightStores index).symm.trans rightFound) same
      exact storesLog_agree leftStores rightStores (index + 1) below agrees bound

theorem logs_match_trio : ∃ w, trio.Reachable Plan.clean w ∧ ∃ entry, w.entry "a" 1 = some entry ∧
    w.entry "b" 1 = some entry ∧ (∀ id, WellFormed (w.members id).node (w.members id).store) ∧
      ∀ below, below ≤ 1 → w.entry "a" below = w.entry "b" below := by
  obtain ⟨w, reachable, seen⟩ := smoothly_reached trio smooth_clean commitFirst
    (fun w => (w.entry "a" 1, w.entry "b" 1))
    (by decide +kernel : _ = some (some ⟨1, 1, .noop, []⟩, some ⟨1, 1, .noop, []⟩))
  obtain ⟨left, right⟩ := Prod.mk.inj seen
  obtain ⟨formed, agree⟩ := logs_match trio w reachable
  exact ⟨w, reachable, _, left, right, formed, agree "a" "b" 1 _ _ left right rfl⟩

end QuorumLimiter
