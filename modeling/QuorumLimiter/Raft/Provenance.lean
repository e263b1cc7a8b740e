import QuorumLimiter.Raft.Merging
import QuorumLimiter.Raft.Walks

/-!
Where the commands of the logs come from. Every command entry of a store or of a
request in flight was appended for one `Propose` call, and it has only gone where
requests carried it. `heard id k origin` says that node `id` may hold what call `k`
put on node `origin`; an event keeps to it if every request it delivers does.
-/

namespace QuorumLimiter

open Relation Voting ReplicatedLog Simulation

variable {σ ρ : Type}

section Paths

variable {c : Cluster σ ρ} {w after : World σ ρ} {id : String} {inp : Input} {s : Local σ ρ}

structure SameContents (w v : World σ ρ) : Prop where
  log : ∀ id, (v.members id).store.log = (w.members id).store.log
  calls : v.calls = w.calls
  proposals : ∀ k, registration v.proposals k = registration w.proposals k

theorem sameContents_down (w : World σ ρ) (id : String) : SameContents w (w.down id) :=
  ⟨fun other => by rw [down_store], rfl, fun _ => rfl⟩

theorem sameContents_proposal (w : World σ ρ) (k : Nat) (state : ProposalState ρ) :
    SameContents w (w.setProposal k state) :=
  ⟨fun _ => rfl, rfl, fun _ => registration_modify _ _ _ _⟩

theorem landed_contents (landed : Landed w id s after) : SameContents (w.put id s) after := by
  refine ⟨fun other => ?_, landed.calls, landed.proposals⟩
  rcases landed.members with same | same
  · rw [same]
  · rw [same, down_store]

/-- What a handler of node `id` starts from. -/
structure Origin (w : World σ ρ) (id : String) (s : Local σ ρ) : Prop where
  identity : s.node.id = id
  log : s.store.log = (w.members id).store.log
  calls : s.calls = w.calls
  proposals : s.proposals = w.proposals

theorem outset_origin (named : ∀ id node, (w.members id).node = some node → node.id = id)
    (outset : Outset c w id inp s) : Origin w id s := by
  cases outset with
  | running _ node up | counted _ node up => exact ⟨named id node up, rfl, rfl, rfl⟩
  | woken clusterID => exact ⟨rfl, rfl, rfl, rfl⟩

end Paths

section Contents

variable {apply : Option (ApplyFunc σ ρ)} {plan : Plan} {inp : Input} {s t : Local σ ρ}

theorem putEntries_members (entries : List LogEntry) (log : Bucket Nat LogEntry) {index : Nat}
    {entry : LogEntry} (found : (Store.putEntries log entries).get index = some entry) :
    entry ∈ entries ∨ log.get index = some entry := by
  induction entries generalizing log with
  | nil => exact Or.inr found
  | cons first rest ih =>
      rcases ih (log.put first.index first) found with later | early
      · exact Or.inl (List.mem_cons_of_mem _ later)
      · rw [Bucket.get_put] at early
        split at early
        · cases early
          exact Or.inl List.mem_cons_self
        · exact Or.inr early

theorem overwriteEntries_members {store : Store σ} {truncateFrom : Nat} {entries : List LogEntry}
    {index : Nat} {entry : LogEntry}
    (found : (store.overwriteEntries truncateFrom entries).entry index = some entry) :
    entry ∈ entries ∨ store.entry index = some entry := by
  refine (putEntries_members entries _ found).imp id fun old => ?_
  split at old
  · rw [Store.truncateSuffixTx, Bucket.foldl_delete_seek, Bucket.get_filter,
      Option.filter_eq_some_iff] at old
    exact old.1
  · exact old

theorem reconcile_members {store : Store σ} {prevIndex truncateFrom : Nat}
    {entries toAppend : List LogEntry}
    (merged : reconcile store prevIndex entries = (truncateFrom, toAppend)) :
    toAppend ⊆ entries := by
  have dropped : ∃ place, toAppend = entries.drop place := by
    rcases reconcile_cases store entries prevIndex with
      ⟨result, _⟩ | ⟨place, _, _, _, ⟨_, result⟩ | ⟨_, result⟩⟩
    · rw [merged, Prod.mk.injEq] at result
      exact ⟨entries.length, by rw [result.2, List.drop_length]⟩
    all_goals
      rw [merged, Prod.mk.injEq] at result
      exact ⟨place, result.2⟩
  obtain ⟨place, rfl⟩ := dropped
  exact List.drop_subset place entries

theorem entries_members {store : Store σ} {lo hi : Nat} {entry : LogEntry}
    (member : entry ∈ store.entries lo hi) : ∃ index, store.entry index = some entry := by
  rw [Store.entries] at member
  split at member
  · cases member
  · obtain ⟨⟨index, _⟩, paired, rfl⟩ := List.mem_map.mp member
    have sought := (List.takeWhile_sublist _).subset paired
    exact ⟨index, (Bucket.get_eq_some_iff _ _ _).mpr ((Bucket.mem_seek _ _ _).mp sought).1⟩

theorem move_stored (move : Move apply plan inp s t) {index : Nat} {entry : LogEntry}
    (found : t.store.entry index = some entry) :
    s.store.entry index = some entry ∨ entry.kind = .noop ∨
      registration t.proposals s.proposals.length = some (s.node.id, entry) ∨
      (∃ req, inp = .appendRequest req ∧ entry ∈ req.entries) ∨ plan.mayTear := by
  cases move with
  | assertLeadership leader =>
      rcases putEntries_members [s.node.noopEntry] _ found with new | old
      · obtain rfl := List.mem_singleton.mp new
        exact Or.inr (Or.inl rfl)
      · exact Or.inl old
  | propose command asked leader =>
      rcases putEntries_members [s.node.commandEntry command] _ found with new | old
      · obtain rfl := List.mem_singleton.mp new
        refine Or.inr (Or.inr (Or.inl ?_))
        exact congrArg (Option.map _) (List.getElem?_concat_length (l := s.proposals))
      · exact Or.inl old
  | overwrite req truncateFrom toAppend asked current follower held merged needed =>
      rcases overwriteEntries_members found with new | old
      · exact Or.inr (Or.inr (Or.inr (Or.inl ⟨req, asked, reconcile_members merged new⟩)))
      · exact Or.inl old
  | tear truncateFrom toAppend torn => exact Or.inr (Or.inr (Or.inr (Or.inr torn)))
  | stepDown term leaderID =>
      rw [follow_store, Local.advanceTerm] at found
      split at found <;> exact Or.inl found
  | applyNext after other result _ _ applied =>
      obtain ⟨_, _, rfl⟩ := applyStep_facts applied
      unfold Local.deliver at found
      split at found <;> exact Or.inl found
  | _ => exact Or.inl found

theorem move_sent (move : Move apply plan inp s t) {call : Call} (sent : call ∈ t.calls) :
    call ∈ s.calls ∨ call.source = s.node.id ∧ ∀ req, call.request = .append req →
      ∀ entry ∈ req.entries, ∃ index, s.store.entry index = some entry := by
  cases move with
  | stand =>
      rcases List.mem_append.mp sent with old | new
      · exact Or.inl old
      · obtain ⟨peer, _, rfl⟩ := List.mem_map.mp new
        exact Or.inr ⟨rfl, by rintro req ⟨⟩⟩
  | append peer prevTerm =>
      rcases List.mem_append.mp sent with old | new
      · exact Or.inl old
      · obtain ⟨peer, _, rfl⟩ := List.mem_map.mp new
        refine Or.inr ⟨rfl, ?_⟩
        rintro _ ⟨⟩ entry member
        simp only [Node.appendRequest] at member
        split at member
        · exact entries_members member
        · cases member
  | stepDown term leaderID =>
      rw [follow_calls, advanceTerm_calls] at sent
      exact Or.inl sent
  | applyNext after entry result _ _ applied =>
      obtain ⟨_, _, rfl⟩ := applyStep_facts applied
      rw [deliver_calls] at sent
      exact Or.inl sent
  | _ => exact Or.inl sent

end Contents

section Sources

/-- Where the commands a node holds may come from: node `id`, call `k`, made on `origin`. -/
abbrev Hearing := String → Nat → String → Prop

/-- A command was appended for some call that may be heard here. -/
def Traceable (heard : Nat → String → Prop) (proposals : List (Proposal ρ)) (entry : LogEntry) :
    Prop :=
  entry.kind = .command →
    ∃ k origin, registration proposals k = some (origin, entry) ∧ heard k origin

/-- Every command in a log or in a request under way comes from a call its holder
may have heard of. -/
structure Minted (heard : Hearing) (w : World σ ρ) : Prop where
  stored : ∀ id index entry, w.entry id index = some entry →
    Traceable (heard id) w.proposals entry
  sent : ∀ call ∈ w.calls, ∀ req, call.request = .append req → ∀ entry ∈ req.entries,
    Traceable (heard call.source) w.proposals entry

structure LocalMinted (heard : Hearing) (inp : Input) (id : String) (s : Local σ ρ) : Prop where
  identity : s.node.id = id
  stored : ∀ index entry, s.store.entry index = some entry →
    Traceable (heard id) s.proposals entry
  sent : ∀ call ∈ s.calls, ∀ req, call.request = .append req → ∀ entry ∈ req.entries,
    Traceable (heard call.source) s.proposals entry
  given : ∀ req, inp = .appendRequest req → ∀ entry ∈ req.entries,
    Traceable (heard id) s.proposals entry

/-- A request the event delivers brings its receiver nothing it may not hear of. -/
def Carries (heard : Hearing) (w : World σ ρ) (event : Event) : Prop :=
  ∀ k call, event = .deliver k → w.calls[k]? = some call →
    ∀ j origin, heard call.source j origin → heard call.peer j origin

variable {heard : Hearing} {plan : Plan} {inp : Input} {id : String}

theorem clean_whole (clean : plan.clean) : ¬ plan.mayTear := by
  rintro ⟨calls, failed | failed⟩ <;> exact clean _ failed

theorem traceable_more {near : Nat → String → Prop} {proposals grown : List (Proposal ρ)}
    (more : ∀ k found, registration proposals k = some found → registration grown k = some found)
    {entry : LogEntry} (traceable : Traceable near proposals entry) :
    Traceable near grown entry := by
  intro command
  obtain ⟨k, origin, registered, allowed⟩ := traceable command
  exact ⟨k, origin, more k _ registered, allowed⟩

theorem move_registration {apply : Option (ApplyFunc σ ρ)} {s t : Local σ ρ}
    (move : Move apply plan inp s t) (k : Nat) (found : String × LogEntry)
    (registered : registration s.proposals k = some found) :
    registration t.proposals k = some found := by
  obtain ⟨_, added, grown, _⟩ := moves_proposals (ReflTransGen.single move)
  rw [grown]
  exact registration_append _ _ _ _ registered

theorem localMinted_move {apply : Option (ApplyFunc σ ρ)} {s t : Local σ ρ} (clean : plan.clean)
    (own : ∀ id k, heard id k id) (move : Move apply plan inp s t)
    (held : LocalMinted heard inp id s) :
    LocalMinted heard inp id t := by
  have more {near : Nat → String → Prop} {entry : LogEntry}
      (traceable : Traceable near s.proposals entry) : Traceable near t.proposals entry :=
    traceable_more (move_registration move) traceable
  refine ⟨(move_id move).trans held.identity, ?_, ?_, ?_⟩
  · intro index entry found
    rcases move_stored move found with old | noop | registered | ⟨req, asked, member⟩ | torn
    · exact more (held.stored index entry old)
    · intro command
      rw [noop] at command
      cases command
    · rw [held.identity] at registered
      exact fun _ => ⟨_, id, registered, own id _⟩
    · exact more (held.given req asked entry member)
    · exact absurd torn (clean_whole clean)
  · intro call sent req asked entry member
    rcases move_sent move sent with old | ⟨source, stored⟩
    · exact more (held.sent call old req asked entry member)
    · obtain ⟨index, found⟩ := stored req asked entry member
      rw [source, held.identity]
      exact more (held.stored index entry found)
  · exact fun req asked entry member => more (held.given req asked entry member)

variable {c : Cluster σ ρ} {w after : World σ ρ}

theorem minted_same (same : SameContents w after) (minted : Minted heard w) :
    Minted heard after := by
  have more {near : Nat → String → Prop} {entry : LogEntry}
      (traceable : Traceable near w.proposals entry) : Traceable near after.proposals entry :=
    traceable_more (fun k _ registered => (same.proposals k).trans registered) traceable
  refine ⟨?_, ?_⟩
  · intro id index entry found
    rw [World.entry, Store.entry, same.log id] at found
    exact more (minted.stored id index entry found)
  · intro call sent req asked entry member
    rw [same.calls] at sent
    exact more (minted.sent call sent req asked entry member)

theorem minted_step (named : ∀ id node, (w.members id).node = some node → node.id = id)
    (clean : plan.clean) (own : ∀ id k, heard id k id) {event : Event}
    (carries : Carries heard w event) (stepped : c.step plan w event = some after)
    (minted : Minted heard w) : Minted heard after := by
  cases step_walked stepped with
  | caller k state => exact minted_same (sameContents_proposal w k state) minted
  | crash id => exact minted_same (sameContents_down w id) minted
  | moved id inp origin s _ outset path landed given =>
      have begins := outset_origin named outset
      have start : LocalMinted heard inp id origin := by
        refine ⟨begins.identity, ?_, ?_, ?_⟩
        · intro index entry found
          rw [Store.entry, begins.log] at found
          rw [begins.proposals]
          exact minted.stored id index entry found
        · rw [begins.calls, begins.proposals]
          exact minted.sent
        · rintro req rfl entry member command
          obtain ⟨k, call, delivered, sent, rfl, asked⟩ := given
          rw [begins.proposals]
          obtain ⟨j, node, registered, allowed⟩ :=
            minted.sent call (List.mem_of_getElem? sent) req asked entry member command
          exact ⟨j, node, registered, carries k call delivered sent j node allowed⟩
      have held := run_invariant (LocalMinted heard inp id)
        (fun _ _ => localMinted_move clean own) path start
      obtain ⟨_, grown, added, _⟩ := moves_proposals path
      refine minted_same (landed_contents landed) ⟨?_, held.sent⟩
      intro other index entry found
      by_cases self : other = id
      · subst other
        rw [World.entry, put_member] at found
        exact held.stored index entry found
      · rw [World.entry, put_member_ne _ _ _ _ self] at found
        refine traceable_more ?_ (minted.stored other index entry found)
        intro k found registered
        rw [put_proposals, added, begins.proposals]
        exact registration_append _ _ _ _ registered

theorem minted_init (c : Cluster σ ρ) : Minted heard c.init := by
  refine ⟨?_, by rintro call ⟨⟩⟩
  intro id index entry found command
  have stores := storesLog_migrated c.app
  cases index with
  | zero =>
      cases (storesLog_sentinel stores).symm.trans found
      cases command
  | succ index =>
      rw [World.entry] at found
      cases (storesLog_entry stores index).symm.trans found

end Sources

section Places

variable {c : Cluster σ ρ} {w after : World σ ρ} {g reached : History}
  {counted recounted : String → Finset String}

/-- A call's entry has its place in the log of its term, and no other call has it. -/
structure Placed (g : History) (proposals : List (Proposal ρ)) : Prop where
  written : ∀ k origin entry, registration proposals k = some (origin, entry) →
    (g.elected entry.term).isSome ∧ 1 ≤ entry.index ∧
      (g.ledger entry.term)[entry.index - 1]? = some entry
  apart : ∀ j k node origin entry twin, registration proposals j = some (node, entry) →
    registration proposals k = some (origin, twin) → entry.term = twin.term →
    entry.index = twin.index → j = k

theorem placed_same (extended : Extends g reached) {proposals same : List (Proposal ρ)}
    (unchanged : ∀ k, registration same k = registration proposals k)
    (placed : Placed g proposals) : Placed reached same := by
  refine ⟨?_, ?_⟩
  · intro k origin entry registered
    rw [unchanged] at registered
    obtain ⟨won, positive, present⟩ := placed.written k origin entry registered
    obtain ⟨kept, _, grows⟩ := grows_isSome g reached extended.1 _ won
    exact ⟨kept, positive, getElem?_of_grows _ _ _ _ grows present⟩
  · intro j k node origin entry twin
    rw [unchanged, unchanged]
    exact placed.apart j k node origin entry twin

theorem placed_concat (extended : Extends g reached) {proposals : List (Proposal ρ)}
    (placed : Placed g proposals) (added : Proposal ρ)
    (won : (reached.elected added.entry.term).isSome) (positive : 1 ≤ added.entry.index)
    (present : (reached.ledger added.entry.term)[added.entry.index - 1]? = some added.entry)
    (fresh : (g.ledger added.entry.term).length ≤ added.entry.index - 1) :
    Placed reached (proposals ++ [added]) := by
  have still := placed_same extended (fun _ => rfl) placed
  have split (k : Nat) (found : String × LogEntry)
      (registered : registration (proposals ++ [added]) k = some found) :
      registration proposals k = some found ∨
        k = proposals.length ∧ found = (added.node, added.entry) := by
    rcases Nat.lt_or_ge k proposals.length with old | new
    · rw [registration, List.getElem?_append_left old] at registered
      exact Or.inl registered
    · have bound := registration_length registered
      rw [List.length_append, List.length_singleton] at bound
      obtain rfl : k = proposals.length := by omega
      rw [registration, List.getElem?_concat_length] at registered
      exact Or.inr ⟨rfl, (Option.some.inj registered).symm⟩
  have taken (k : Nat) (origin : String) (entry : LogEntry)
      (registered : registration proposals k = some (origin, entry))
      (term : entry.term = added.entry.term) (index : entry.index = added.entry.index) : False := by
    obtain ⟨_, _, inside⟩ := placed.written k origin entry registered
    have bound := (List.getElem?_eq_some_iff.mp inside).1
    rw [term, index] at bound
    omega
  refine ⟨?_, ?_⟩
  · intro k origin entry registered
    rcases split k _ registered with old | ⟨_, new⟩
    · exact still.written k origin entry old
    · obtain ⟨rfl, rfl⟩ := Prod.mk.inj new
      exact ⟨won, positive, present⟩
  · intro j k node origin entry twin left right term index
    rcases split j _ left with first | ⟨rfl, first⟩ <;>
      rcases split k _ right with second | ⟨rfl, second⟩
    · exact placed.apart j k node origin entry twin first second term index
    · obtain ⟨rfl, rfl⟩ := Prod.mk.inj second
      exact (taken j node entry first term index).elim
    · obtain ⟨rfl, rfl⟩ := Prod.mk.inj first
      exact (taken k origin twin second term.symm index.symm).elim
    · rfl

theorem placed_turn {plan : Plan} {inp : Input} (valid : Replicated c w g counted)
    (turn : Turn c plan inp w after) (holds : Replicated c after reached recounted)
    (extended : Extends g reached) (placed : Placed g w.proposals) :
    Placed reached after.proposals := by
  cases turn with
  | move id node s up arrived move =>
      cases move_registry move with
      | registered command asked proposals outcomes waiters stored leads tip =>
          have running : ((w.put id s).members id).node = some s.node := by rw [put_member]
          obtain ⟨_, _, ledger⟩ := replicated_leader valid up leads.1
          obtain ⟨voters, won, grown⟩ := replicated_leader holds running leads.2.1
          have stores := holds.logs.stores id
          rw [put_member] at stores
          have present := storesLog_entry stores node.lastLogIndex
          rw [Store.entry, stored] at present
          have written := present.symm.trans (Bucket.get_put_self _ _ _)
          rw [grown, leads.2.2] at written
          rw [replicated_term holds running, leads.2.2] at won
          rw [put_proposals, proposals]
          apply placed_concat extended placed
          · exact won ▸ rfl
          · exact Nat.succ_pos _
          · exact written
          · change (g.ledger node.currentTerm).length ≤ node.lastLogIndex
            rw [(valid.logs.nodes id node up).lastIndex, ledger]
      | kept proposals | dropped _ _ proposals | failed proposals
      | delivered _ _ _ _ _ _ _ _ proposals =>
          exact placed_same extended (fun k => congrArg (registration · k) proposals) placed
  | proposal k state earned =>
      exact placed_same extended (fun j => registration_modify _ _ _ _) placed
  | _ => exact placed_same extended (fun _ => rfl) placed

theorem placed_reachable (reachable : c.Reachable Plan.clean w) :
    ∃ g counted, Replicated c w g counted ∧ Placed g w.proposals := by
  obtain ⟨⟨g, counted⟩, holds, _⟩ := run_answered
    (fun w (state : History × (String → Finset String)) => Replicated c w state.1 state.2 ∧
      Placed state.1 w.proposals)
    (fun _ _ => True) (fun _ => trivial) (fun _ _ _ _ _ => trivial)
    (by
      rintro w after ⟨g, counted⟩ ⟨plan, inp, clean, turn⟩ ⟨valid, placed⟩
      obtain ⟨reached, recounted, holds, extended⟩ := replicated_turn clean valid turn
      exact ⟨(reached, recounted), ⟨holds, placed_turn valid turn holds extended placed⟩, trivial⟩)
    (later_taken reachable) (g := (Replicas.init String LogEntry, fun _ => ∅))
    ⟨⟨votes_init c, logs_init c⟩, by rintro k origin entry ⟨⟩, by rintro j k node origin _ _ ⟨⟩⟩
  exact ⟨g, counted, holds⟩

theorem registered_once (reachable : c.Reachable Plan.clean w) {j k : Nat} {node origin : String}
    {entry : LogEntry} (left : registration w.proposals j = some (node, entry))
    (right : registration w.proposals k = some (origin, entry)) : j = k := by
  obtain ⟨_, _, _, placed⟩ := placed_reachable reachable
  exact placed.apart j k node origin entry entry left right rfl rfl

theorem reachable_named (reachable : c.Reachable Plan.clean w) (id : String) (node : Node)
    (up : (w.members id).node = some node) : node.id = id := by
  obtain ⟨_, _, valid⟩ := replicated_reachable reachable
  exact (valid.votes.nodes id node up).identity

theorem minted_reachable (reachable : c.Reachable Plan.clean w) :
    Minted (fun _ _ _ => True) w := by
  induction reachable with
  | refl => exact minted_init c
  | tail before next ih =>
      obtain ⟨plan, event, clean, stepped⟩ := next
      exact minted_step (reachable_named before) clean (fun _ _ => trivial)
        (fun _ _ _ _ _ _ _ => trivial) stepped ih

/-- Call `k` was made by an earlier `Propose` of the entry's command on `origin`. -/
def Called (c : Cluster σ ρ) (w : World σ ρ) (k : Nat) (origin : String) (entry : LogEntry) :
    Prop :=
  ∃ plan before after, plan.clean ∧ c.Reachable Plan.clean before ∧
    c.step plan before (.propose origin entry.command) = some after ∧
    c.Later Plan.clean after w ∧ before.proposals.length ≤ k ∧
    registration after.proposals k = some (origin, entry)

theorem called_registered {k : Nat} {origin : String} {entry : LogEntry}
    (called : Called c w k origin entry) : registration w.proposals k = some (origin, entry) := by
  obtain ⟨_, _, _, _, _, _, run, _, registered⟩ := called
  exact registration_later run registered

theorem step_registered {plan : Plan} {event : Event} {before after : World σ ρ}
    (named : ∀ id node, (before.members id).node = some node → node.id = id)
    (stepped : c.step plan before event = some after) {k : Nat} {origin : String}
    {entry : LogEntry} (fresh : registration before.proposals k = none)
    (registered : registration after.proposals k = some (origin, entry)) :
    event = .propose origin entry.command ∧ before.proposals.length ≤ k := by
  cases step_walked stepped with
  | caller j state =>
      rw [World.setProposal, registration_modify, fresh] at registered
      cases registered
  | crash id => cases fresh.symm.trans registered
  | moved id inp origin s _ outset path landed given =>
      have begins := outset_origin named outset
      obtain ⟨identity, added, grown, own⟩ := moves_proposals path
      rw [begins.proposals] at grown
      have outside : before.proposals.length ≤ k := by
        simpa [registration] using fresh
      have new := (landed.proposals k).symm.trans registered
      rw [grown, registration, List.getElem?_append_right outside] at new
      obtain ⟨proposal, present, found⟩ := Option.map_eq_some_iff.mp new
      obtain ⟨rfl, rfl⟩ := Prod.mk.inj found
      obtain ⟨owner, _, asked⟩ := own proposal (List.mem_of_getElem? present)
      rw [begins.identity] at owner
      subst id inp
      exact ⟨given, outside⟩

theorem registered_called (reachable : c.Reachable Plan.clean w) (k : Nat) (origin : String)
    (entry : LogEntry) (registered : registration w.proposals k = some (origin, entry)) :
    Called c w k origin entry := by
  induction reachable with
  | refl => cases registered
  | @tail before after run next ih =>
      obtain ⟨plan, event, clean, stepped⟩ := next
      have later : c.Later Plan.clean before after :=
        ReflTransGen.single ⟨plan, event, clean, stepped⟩
      cases old : registration before.proposals k with
      | some found =>
          obtain rfl : found = (origin, entry) :=
            Option.some.inj ((registration_later later old).symm.trans registered)
          obtain ⟨first, start, reached, sound, early, proposed, more, rest⟩ := ih old
          exact ⟨first, start, reached, sound, early, proposed, more.trans later, rest⟩
      | none =>
          obtain ⟨rfl, outside⟩ := step_registered (reachable_named run) stepped old registered
          exact ⟨plan, before, after, clean, run, stepped, ReflTransGen.refl, outside, registered⟩

end Places

/-- Every command in the log of any node was appended for one earlier `Propose` of
it, and for no other. That call's entry is found at no other index, on any node,
then or later. -/
theorem commands_proposed_once (c : Cluster σ ρ) (w : World σ ρ)
    (reachable : c.Reachable Plan.clean w) (id : String) (index : Nat) (entry : LogEntry)
    (found : w.entry id index = some entry) (command : entry.kind = .command) :
    ∃ k origin, Called c w k origin entry ∧ (∀ j node, Called c w j node entry → j = k) ∧
      ∀ later, c.Later Plan.clean w later → ∀ node place other sender,
        later.entry node place = some other → Called c later k sender other →
          other = entry ∧ place = index := by
  obtain ⟨k, origin, registered, _⟩ := (minted_reachable reachable).stored id index entry found
    command
  refine ⟨k, origin, registered_called reachable k origin entry registered, ?_, ?_⟩
  · intro j node called
    exact registered_once reachable (called_registered called) registered
  · intro later run node place other sender present called
    have kept := (registration_later run registered).symm.trans (called_registered called)
    obtain ⟨_, rfl⟩ := Prod.mk.inj (Option.some.inj kept)
    obtain ⟨g, counted, valid⟩ := replicated_reachable reachable
    obtain ⟨_, _, holds⟩ := replicated_reachable (reachable.trans run)
    have here := (replicated_wellFormed valid id).indexed index entry found
    have there := (replicated_wellFormed holds node).indexed place entry present
    exact ⟨rfl, there.symm.trans here⟩

theorem commands_proposed_once_tally : ∃ w entry, tally.Reachable Plan.clean w ∧
    w.entry "b" 2 = some entry ∧ entry.command = [7] ∧ ∃ k origin,
      Called tally w k origin entry ∧ ∀ j node, Called tally w j node entry → j = k := by
  obtain ⟨w, reachable, seen⟩ := smoothly_reached tally smooth_clean
    (electFirst ++ [.propose "a" [7], .deliver 4]) (·.entry "b" 2)
    (by decide +kernel : _ = some (some ⟨2, 1, .command, [7]⟩))
  obtain ⟨k, origin, called, once, _⟩ :=
    commands_proposed_once tally w reachable "b" 2 _ seen rfl
  exact ⟨w, _, reachable, seen, rfl, k, origin, called, once⟩

end QuorumLimiter
