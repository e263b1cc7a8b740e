import QuorumLimiter.Raft.Applying

/-!
Proposers and their results. Waiters are registered by log index alone, and an
index can be taken by another entry after a truncation. A waiter is only kept
while its node leads, and a leader's log only grows, so the entry applied at a
waiter's index is the one its proposer appended.
-/

namespace QuorumLimiter

open Voting ReplicatedLog Simulation

variable {σ ρ : Type}

/-- The node a proposal was made on and the entry appended for it. -/
def registration (proposals : List (Proposal ρ)) (k : Nat) : Option (String × LogEntry) :=
  proposals[k]?.map fun proposal => (proposal.node, proposal.entry)

/-- What a move does to the registry of waiters. -/
inductive Registry (apply : Option (ApplyFunc σ ρ)) (inp : Input) (s t : Local σ ρ) : Prop
  | kept (proposals : t.proposals = s.proposals) (outcomes : t.outcomes = s.outcomes)
      (waiters : t.node.waiters = s.node.waiters)
      (leads : s.node.role = .leader →
        t.node.role = .leader ∧ t.node.currentTerm = s.node.currentTerm)
  | dropped (index : Nat) (asked : inp = .deregister index) (proposals : t.proposals = s.proposals)
      (outcomes : t.outcomes = s.outcomes)
      (waiters : t.node.waiters = s.node.waiters.delete index)
      (leads : t.node.role = s.node.role ∧ t.node.currentTerm = s.node.currentTerm)
  | failed (proposals : t.proposals = s.proposals) (waiters : t.node.waiters = Bucket.empty)
      (outcomes : t.outcomes = s.outcomes ++
        s.node.waiters.pairs.map fun pair => (pair.2, .error .notLeader))
  | registered (command : List UInt8) (asked : inp = .proposal command)
      (proposals : t.proposals =
        s.proposals ++ [⟨s.node.id, s.node.commandEntry command, .waiting⟩])
      (outcomes : t.outcomes = s.outcomes)
      (waiters : t.node.waiters =
        s.node.waiters.put (s.node.commandEntry command).index s.proposals.length)
      (stored : t.store.log = s.store.log.put (s.node.commandEntry command).index
        (s.node.commandEntry command))
      (leads : s.node.role = .leader ∧ t.node.role = .leader ∧
        t.node.currentTerm = s.node.currentTerm)
      (tip : t.node.lastLogIndex = (s.node.commandEntry command).index)
  | delivered (channel : Nat) (entry : LogEntry) (result : Option ρ) (next : Nat × σ)
      (waiting : s.node.waiters.get (s.node.lastApplied + 1) = some channel)
      (behind : s.node.lastApplied < s.node.commitIndex)
      (found : s.store.entry (s.node.lastApplied + 1) = some entry)
      (stepped : transition apply (s.node.lastApplied + 1) entry
        (s.store.lastApplied, s.store.app) = .ok (result, next))
      (proposals : t.proposals = s.proposals)
      (outcomes : t.outcomes = s.outcomes ++ [(channel, .ok result)])
      (waiters : t.node.waiters = s.node.waiters.delete (s.node.lastApplied + 1))
      (leads : t.node.role = s.node.role ∧ t.node.currentTerm = s.node.currentTerm)

theorem move_registry {apply : Option (ApplyFunc σ ρ)} {plan : Plan} {inp : Input}
    {s t : Local σ ρ} (move : Move apply plan inp s t) : Registry apply inp s t := by
  cases move with
  | stepDown term leaderID reached told named =>
      have before : (s.advanceTerm term).proposals = s.proposals ∧
          (s.advanceTerm term).outcomes = s.outcomes ∧
          (s.advanceTerm term).node.waiters = s.node.waiters ∧
          (s.advanceTerm term).node.role = s.node.role := by
        unfold Local.advanceTerm
        split <;> exact ⟨rfl, rfl, rfl, rfl⟩
      obtain ⟨proposals, outcomes, waiters, role⟩ := before
      by_cases leader : s.node.role = .leader
      · apply Registry.failed
        · rw [follow_proposals, proposals]
        · rw [follow_node]
          exact if_pos (role.trans leader)
        · rw [Local.follow, if_pos (role.trans leader), ← outcomes, ← waiters]
          rfl
      · apply Registry.kept
        · rw [follow_proposals, proposals]
        · rw [Local.follow, if_neg (role ▸ leader)]
          exact outcomes
        · rw [follow_node]
          exact (if_neg (role ▸ leader)).trans waiters
        · exact fun leads => absurd leads leader
  | stand due notLeader => exact Registry.kept rfl rfl rfl fun leads => absurd leads notLeader
  | promote candidateID resp answered candidate won =>
      refine Registry.kept rfl rfl rfl fun leads => ?_
      rw [candidate] at leads
      cases leads
  | propose command asked leader =>
      exact Registry.registered command asked rfl rfl rfl rfl ⟨leader, leader, rfl⟩ rfl
  | applyNext after entry result behind found applied =>
      obtain ⟨next, stepped, rfl⟩ := applyStep_transition applied
      unfold Local.deliver
      split
      · exact Registry.kept rfl rfl rfl fun leads => ⟨leads, rfl⟩
      · rename_i channel waiting
        exact Registry.delivered channel entry result next waiting behind found stepped rfl rfl rfl
          ⟨rfl, rfl⟩
  | recordMatch peer term resp =>
      have unchanged : (recordMatch peer resp.matchIndex s.node).waiters = s.node.waiters ∧
          (recordMatch peer resp.matchIndex s.node).role = s.node.role ∧
          (recordMatch peer resp.matchIndex s.node).currentTerm = s.node.currentTerm := by
        unfold recordMatch
        split <;> exact ⟨rfl, rfl, rfl⟩
      exact Registry.kept rfl rfl unchanged.1 fun leads => ⟨unchanged.2.1.trans leads, unchanged.2.2⟩
  | deregister index asked => exact Registry.dropped index asked rfl rfl rfl ⟨rfl, rfl⟩
  | _ => exact Registry.kept rfl rfl rfl fun leads => ⟨leads, rfl⟩

/-- The registered waiter's entry is in the log of the term its node leads. -/
structure Pending (g : History) (proposals : List (Proposal ρ)) (id : String) (node : Node)
    (index channel : Nat) : Prop where
  leader : node.role = .leader
  appended : ∃ entry, registration proposals channel = some (id, entry) ∧ entry.index = index ∧
    (g.ledger node.currentTerm)[index - 1]? = some entry

/-- The entry is committed on its node, and `result` is what the entries before it
and then the entry itself lead to. -/
structure Delivered (c : Cluster σ ρ) (log : List LogEntry) (commitIndex : Nat) (entry : LogEntry)
    (result : Option ρ) : Prop where
  positive : 1 ≤ entry.index
  committed : entry.index ≤ commitIndex
  present : log[entry.index - 1]? = some entry
  computed : ∃ state next, replay c.apply 1 (log.take (entry.index - 1)) (0, c.app) = .ok state ∧
    transition c.apply entry.index entry state = .ok (result, next)

structure Answering (c : Cluster σ ρ) (w : World σ ρ) (g : History) : Prop where
  once : (w.outcomes.map Prod.fst).Nodup
  known : ∀ k ∈ w.outcomes.map Prod.fst, k < w.proposals.length
  pending : ∀ id node, (w.members id).node = some node → ∀ index channel,
    node.waiters.get index = some channel →
      Pending g w.proposals id node index channel ∧ channel ∉ w.outcomes.map Prod.fst
  delivered : ∀ k result, (k, .ok result) ∈ w.outcomes → ∃ id entry,
    registration w.proposals k = some (id, entry) ∧
      Delivered c (g.log id) (w.members id).store.commitIndex entry result
  finished : ∀ (k : Nat) (proposal : Proposal ρ) (result : Option ρ),
    w.proposals[k]? = some proposal → proposal.state = .finished (.ok result) →
      (k, .ok result) ∈ w.outcomes

theorem answering_init (c : Cluster σ ρ) : Answering c c.init (Replicas.init String LogEntry) := by
  refine ⟨List.nodup_nil, ?_, ?_, ?_, ?_⟩
  · rintro k ⟨⟩
  · rintro id node ⟨⟩
  · rintro k result ⟨⟩
  · rintro k proposal result ⟨⟩

section Keeping

variable {c : Cluster σ ρ} {g reached : History}

theorem pending_kept {proposals grown : List (Proposal ρ)} {id : String}
    {node after : Node} {index channel : Nat} (extended : Extends g reached)
    (won : node.role = .leader → (g.elected node.currentTerm).isSome)
    (pending : Pending g proposals id node index channel)
    (more : ∀ k found, registration proposals k = some found → registration grown k = some found)
    (leads : node.role = .leader → after.role = .leader ∧ after.currentTerm = node.currentTerm) :
    Pending reached grown id after index channel := by
  obtain ⟨leader, entry, registered, at_index, written⟩ := pending
  obtain ⟨stays, term⟩ := leads leader
  obtain ⟨_, _, ledger⟩ := grows_isSome g reached extended.1 _ (won leader)
  refine ⟨stays, entry, more channel _ registered, at_index, ?_⟩
  rw [term]
  exact getElem?_of_grows _ _ _ _ ledger written

theorem delivered_kept {log later : List LogEntry} {commitIndex more : Nat} {entry : LogEntry}
    {result : Option ρ} (delivered : Delivered c log commitIndex entry result)
    (same : later.take commitIndex = log.take commitIndex) (grown : commitIndex ≤ more) :
    Delivered c later more entry result := by
  obtain ⟨positive, committed, present, state, next, replayed, stepped⟩ := delivered
  refine ⟨positive, Nat.le_trans committed grown, ?_, state, next, ?_, stepped⟩
  · rw [getElem?_of_take later log (entry.index - 1) commitIndex (by omega) same]
    exact present
  · rw [take_shorter later log (entry.index - 1) commitIndex (by omega) same]
    exact replayed

end Keeping

section Turns

variable {c : Cluster σ ρ} {w after : World σ ρ} {g reached : History}
  {counted recounted : String → Finset String}

theorem registration_append (proposals more : List (Proposal ρ)) (k : Nat)
    (found : String × LogEntry) (registered : registration proposals k = some found) :
    registration (proposals ++ more) k = some found := by
  obtain ⟨proposal, present, same⟩ := Option.map_eq_some_iff.mp registered
  exact Option.map_eq_some_iff.mpr
    ⟨proposal, getElem?_grown (List.prefix_append _ _) present, same⟩

theorem registration_length {proposals : List (Proposal ρ)} {k : Nat} {found : String × LogEntry}
    (registered : registration proposals k = some found) : k < proposals.length := by
  obtain ⟨proposal, present, _⟩ := Option.map_eq_some_iff.mp registered
  exact (List.getElem?_eq_some_iff.mp present).1

theorem answering_grow (answering : Answering c w g) (valid : Replicated c w g counted)
    (holds : Replicated c after reached recounted) (extended : Extends g reached)
    (grown : ∀ id, (w.members id).store.commitIndex ≤ (after.members id).store.commitIndex)
    (extra : List (Nat × Outcome ρ)) (outcomes : after.outcomes = w.outcomes ++ extra)
    (more : ∀ k found, registration w.proposals k = some found →
      registration after.proposals k = some found)
    (fresh : (extra.map Prod.fst).Nodup ∧ ∀ k ∈ extra.map Prod.fst,
      k ∉ w.outcomes.map Prod.fst ∧ ∃ found, registration w.proposals k = some found)
    (longer : w.proposals.length ≤ after.proposals.length)
    (pending : ∀ id node, (after.members id).node = some node → ∀ index channel,
      node.waiters.get index = some channel →
        Pending reached after.proposals id node index channel ∧
          channel ∉ after.outcomes.map Prod.fst)
    (earned : ∀ k result, (k, .ok result) ∈ extra → ∃ id entry,
      registration w.proposals k = some (id, entry) ∧
        Delivered c (g.log id) (w.members id).store.commitIndex entry result)
    (finished : ∀ (k : Nat) (proposal : Proposal ρ) (result : Option ρ),
      after.proposals[k]? = some proposal → proposal.state = .finished (.ok result) →
        (k, .ok result) ∈ after.outcomes) : Answering c after reached := by
  -- A turn that hands out the outcomes `extra` and otherwise keeps the waiters.
  refine ⟨?_, ?_, pending, ?_, finished⟩
  · rw [outcomes, List.map_append, List.nodup_append]
    refine ⟨answering.once, fresh.1, ?_⟩
    rintro k old _ new rfl
    exact (fresh.2 k new).1 old
  · intro k member
    rw [outcomes, List.map_append, List.mem_append] at member
    rcases member with old | new
    · exact Nat.lt_of_lt_of_le (answering.known k old) longer
    · obtain ⟨_, found, registered⟩ := fresh.2 k new
      exact Nat.lt_of_lt_of_le (registration_length registered) longer
  · intro k result member
    have before : ∃ id entry, registration w.proposals k = some (id, entry) ∧
        Delivered c (g.log id) (w.members id).store.commitIndex entry result := by
      rw [outcomes, List.mem_append] at member
      rcases member with old | new
      · exact answering.delivered k result old
      · exact earned k result new
    obtain ⟨id, entry, registered, delivered⟩ := before
    refine ⟨id, entry, more k _ registered, ?_⟩
    exact delivered_kept delivered
      (committed_take valid holds extended id (grown id) _ (Nat.le_refl _)) (grown id)

theorem pending_member (answering : Answering c w g) (valid : Replicated c w g counted)
    (extended : Extends g reached)
    {grown : List (Proposal ρ)}
    (more : ∀ k found, registration w.proposals k = some found →
      registration grown k = some found)
    {id : String} {node later : Node} (up : (w.members id).node = some node)
    (leads : node.role = .leader → later.role = .leader ∧ later.currentTerm = node.currentTerm)
    {index channel : Nat} (waiting : node.waiters.get index = some channel) :
    Pending reached grown id later index channel ∧
      channel ∉ w.outcomes.map Prod.fst := by
  -- Waiters of a node that a turn leaves alone, or of which it drops some.
  obtain ⟨pending, silent⟩ := answering.pending id node up index channel waiting
  refine ⟨pending_kept extended ?_ pending more leads, silent⟩
  intro leader
  obtain ⟨voters, won⟩ := (valid.votes.nodes id node up).leading leader
  simp [won]

theorem answering_put {id : String} {t : Local σ ρ} (answering : Answering c w g)
    (valid : Replicated c w g counted) (holds : Replicated c (w.put id t) reached recounted)
    (extended : Extends g reached)
    (grown : ∀ other, (w.members other).store.commitIndex ≤
      ((w.put id t).members other).store.commitIndex)
    (extra : List (Nat × Outcome ρ)) (outcomes : t.outcomes = w.outcomes ++ extra)
    (added : List (Proposal ρ)) (proposals : t.proposals = w.proposals ++ added)
    (waiting : ∀ proposal ∈ added, proposal.state = .waiting)
    (once : (extra.map Prod.fst).Nodup)
    (owned : ∀ k ∈ extra.map Prod.fst, k ∉ w.outcomes.map Prod.fst ∧
      ∃ entry, registration w.proposals k = some (id, entry))
    (self : ∀ index channel, t.node.waiters.get index = some channel →
      Pending reached t.proposals id t.node index channel ∧ channel ∉ t.outcomes.map Prod.fst)
    (earned : ∀ k result, (k, .ok result) ∈ extra → ∃ entry,
      registration w.proposals k = some (id, entry) ∧
        Delivered c (g.log id) (w.members id).store.commitIndex entry result) :
    Answering c (w.put id t) reached := by
  -- A move of one node hands out the outcomes `extra` on channels of its own.
  have more (k : Nat) (found : String × LogEntry)
      (registered : registration w.proposals k = some found) :
      registration (w.put id t).proposals k = some found := by
    rw [put_proposals, proposals]
    exact registration_append _ _ _ _ registered
  apply answering_grow answering valid holds extended grown extra outcomes more
  · refine ⟨once, fun k member => ?_⟩
    obtain ⟨silent, entry, registered⟩ := owned k member
    exact ⟨silent, _, registered⟩
  · simp [proposals]
  · intro other node up index channel waits
    by_cases same : other = id
    · subst other
      rw [put_member] at up
      cases up
      exact self index channel waits
    · rw [put_member_ne w id t other same] at up
      obtain ⟨pending, silent⟩ := pending_member answering valid extended more up
        (fun leader => ⟨leader, rfl⟩) waits
      refine ⟨pending, ?_⟩
      rw [put_outcomes, outcomes, List.map_append, List.mem_append]
      rintro (old | new)
      · exact silent old
      · obtain ⟨_, entry, registered⟩ := owned channel new
        obtain ⟨_, _, elsewhere, _⟩ := pending
        have clash := (more _ _ registered).symm.trans elsewhere
        simp only [Option.some.injEq, Prod.mk.injEq] at clash
        exact same clash.1.symm
  · intro k result member
    obtain ⟨entry, rest⟩ := earned k result member
    exact ⟨id, entry, rest⟩
  · intro k proposal result found state
    rw [put_proposals, proposals] at found
    rw [put_outcomes, outcomes]
    rcases Nat.lt_or_ge k w.proposals.length with old | new
    · rw [List.getElem?_append_left old] at found
      exact List.mem_append_left _ (answering.finished k proposal result found state)
    · rw [List.getElem?_append_right new] at found
      rw [waiting proposal (List.mem_of_getElem? found)] at state
      cases state

section Moving

variable {id : String} {node : Node} {t : Local σ ρ}

theorem pending_owner (answering : Answering c w g) (up : (w.members id).node = some node)
    {index channel : Nat} (waiting : node.waiters.get index = some channel) :
    ∃ entry, registration w.proposals channel = some (id, entry) ∧ entry.index = index := by
  obtain ⟨⟨_, entry, registered, same, _⟩, _⟩ := answering.pending id node up _ _ waiting
  exact ⟨entry, registered, same⟩

theorem pending_apart (answering : Answering c w g) (up : (w.members id).node = some node)
    {index other channel : Nat} (left : node.waiters.get index = some channel)
    (right : node.waiters.get other = some channel) : index = other := by
  obtain ⟨first, registered, atIndex⟩ := pending_owner answering up left
  obtain ⟨second, same, atOther⟩ := pending_owner answering up right
  cases registered.symm.trans same
  exact atIndex.symm.trans atOther

theorem answering_quiet (answering : Answering c w g) (valid : Replicated c w g counted)
    (up : (w.members id).node = some node)
    (holds : Replicated c (w.put id t) reached recounted) (extended : Extends g reached)
    (grown : ∀ other, (w.members other).store.commitIndex ≤
      ((w.put id t).members other).store.commitIndex)
    (proposals : t.proposals = w.proposals) (outcomes : t.outcomes = w.outcomes)
    (leads : node.role = .leader → t.node.role = .leader ∧ t.node.currentTerm = node.currentTerm)
    (fewer : ∀ index channel, t.node.waiters.get index = some channel →
      node.waiters.get index = some channel) : Answering c (w.put id t) reached := by
  apply answering_put answering valid holds extended grown [] (by simp [outcomes]) []
    (by simp [proposals]) (by simp) (by simp) (by simp) _ (by simp)
  intro index channel waiting
  rw [outcomes]
  exact pending_member answering valid extended
    (fun k found registered => by rw [proposals]; exact registered) up leads
    (fewer index channel waiting)

theorem answering_failed (answering : Answering c w g) (valid : Replicated c w g counted)
    (up : (w.members id).node = some node)
    (holds : Replicated c (w.put id t) reached recounted) (extended : Extends g reached)
    (grown : ∀ other, (w.members other).store.commitIndex ≤
      ((w.put id t).members other).store.commitIndex)
    (proposals : t.proposals = w.proposals) (waiters : t.node.waiters = Bucket.empty)
    (outcomes : t.outcomes = w.outcomes ++
      node.waiters.pairs.map fun pair => (pair.2, .error .notLeader)) :
    Answering c (w.put id t) reached := by
  apply answering_put answering valid holds extended grown _ outcomes [] (by simp [proposals])
    (by simp)
  · rw [List.map_map]
    refine List.Nodup.map_on ?_ node.waiters.pairs_nodup
    rintro ⟨index, channel⟩ left ⟨other, _⟩ right rfl
    rw [← Bucket.get_eq_some_iff] at left right
    rw [pending_apart answering up left right]
    rfl
  · intro channel member
    rw [List.map_map] at member
    obtain ⟨⟨index, _⟩, paired, rfl⟩ := List.mem_map.mp member
    rw [← Bucket.get_eq_some_iff] at paired
    obtain ⟨entry, registered, _⟩ := pending_owner answering up paired
    exact ⟨(answering.pending id node up _ _ paired).2, entry, registered⟩
  · intro index channel waiting
    rw [waiters, Bucket.get_empty] at waiting
    contradiction
  · intro k result member
    simp at member

theorem answering_registered (answering : Answering c w g) (valid : Replicated c w g counted)
    (up : (w.members id).node = some node)
    (holds : Replicated c (w.put id t) reached recounted) (extended : Extends g reached)
    (grown : ∀ other, (w.members other).store.commitIndex ≤
      ((w.put id t).members other).store.commitIndex)
    (command : List UInt8)
    (proposals : t.proposals =
      w.proposals ++ [⟨node.id, node.commandEntry command, .waiting⟩])
    (outcomes : t.outcomes = w.outcomes)
    (waiters : t.node.waiters =
      node.waiters.put (node.commandEntry command).index w.proposals.length)
    (stored : t.store.log = (w.members id).store.log.put (node.commandEntry command).index
      (node.commandEntry command))
    (leads : t.node.role = .leader ∧ t.node.currentTerm = node.currentTerm) :
    Answering c (w.put id t) reached := by
  apply answering_put answering valid holds extended grown [] (by simp [outcomes]) _ proposals
    (by simp) (by simp) (by simp) _ (by simp)
  intro index channel waiting
  rw [waiters, Bucket.get_put] at waiting
  rw [outcomes]
  split at waiting
  · rename_i same
    cases waiting
    subst index
    refine ⟨⟨leads.1, node.commandEntry command, ?_, rfl, ?_⟩, ?_⟩
    · rw [registration, proposals, List.getElem?_concat_length, Option.map_some,
        (valid.votes.nodes id node up).identity]
    · have running : ((w.put id t).members id).node = some t.node := by rw [put_member]
      obtain ⟨_, _, ledger⟩ := replicated_leader holds running leads.1
      have stores := holds.logs.stores id
      rw [put_member] at stores
      have entry := storesLog_entry stores node.lastLogIndex
      rw [Store.entry, stored] at entry
      rw [← ledger]
      exact entry.symm.trans (Bucket.get_put_self _ _ _)
    · intro member
      exact absurd (answering.known _ member) (Nat.lt_irrefl _)
  · exact pending_member answering valid extended
      (fun k found registered => by
        rw [proposals]
        exact registration_append _ _ _ _ registered) up (fun _ => leads) waiting

theorem answering_delivered (answering : Answering c w g)
    (applied : Applied c (g.log id) (w.members id)) (valid : Replicated c w g counted)
    (up : (w.members id).node = some node)
    (holds : Replicated c (w.put id t) reached recounted) (extended : Extends g reached)
    (grown : ∀ other, (w.members other).store.commitIndex ≤
      ((w.put id t).members other).store.commitIndex)
    (channel : Nat) (entry : LogEntry) (result : Option ρ) (next : Nat × σ)
    (waiting : node.waiters.get (node.lastApplied + 1) = some channel)
    (behind : node.lastApplied < node.commitIndex)
    (found : (w.members id).store.entry (node.lastApplied + 1) = some entry)
    (stepped : transition c.apply (node.lastApplied + 1) entry
      ((w.members id).store.lastApplied, (w.members id).store.app) = .ok (result, next))
    (proposals : t.proposals = w.proposals)
    (outcomes : t.outcomes = w.outcomes ++ [(channel, .ok result)])
    (waiters : t.node.waiters = node.waiters.delete (node.lastApplied + 1))
    (leads : t.node.role = node.role ∧ t.node.currentTerm = node.currentTerm) :
    Answering c (w.put id t) reached := by
  obtain ⟨⟨leader, own, registered, index, written⟩, silent⟩ :=
    answering.pending id node up _ _ waiting
  -- the leader's log is its ledger, so the entry applied is the one registered
  obtain ⟨_, _, ledger⟩ := replicated_leader valid up leader
  have same : own = entry := by
    rw [storesLog_entry (valid.logs.stores id), ledger] at found
    exact Option.some.inj (written.symm.trans found)
  subst own
  apply answering_put answering valid holds extended grown _ outcomes [] (by simp [proposals])
    (by simp) (by simp)
  · intro k member
    obtain rfl : k = channel := by simpa using member
    exact ⟨silent, entry, registered⟩
  · intro other waiter waits
    rw [waiters, Bucket.get_delete] at waits
    split at waits
    · contradiction
    · rename_i different
      obtain ⟨pending, quiet⟩ := pending_member answering valid extended
        (fun k found known => (congrArg (registration · k) proposals).trans known) up
        (fun leader => ⟨leads.1.trans leader, leads.2⟩) waits
      refine ⟨pending, ?_⟩
      rw [outcomes, List.map_append, List.mem_append]
      rintro (old | new)
      · exact quiet old
      · obtain rfl : waiter = channel := by simpa using new
        exact different (pending_apart answering up waits waiting)
  · intro k value member
    simp only [List.mem_singleton, Prod.mk.injEq, Except.ok.injEq] at member
    obtain ⟨rfl, rfl⟩ := member
    have loaded := applied.loaded node up
    have commit := (valid.logs.nodes id node up).commit
    refine ⟨entry, registered, ?_, ?_, ?_, ?_⟩
    · omega
    · omega
    · rw [index, ledger]
      exact written
    · refine ⟨_, next, ?_, index ▸ stepped⟩
      rw [index, Nat.add_sub_cancel, loaded]
      exact applied.replayed

theorem answering_move {plan : Plan} {inp : Input} (answering : Answering c w g)
    (applied : Applied c (g.log id) (w.members id)) (valid : Replicated c w g counted)
    (up : (w.members id).node = some node) (move : Move c.apply plan inp (w.view id node) t)
    (holds : Replicated c (w.put id t) reached recounted) (extended : Extends g reached)
    (grown : ∀ other, (w.members other).store.commitIndex ≤
      ((w.put id t).members other).store.commitIndex) : Answering c (w.put id t) reached := by
  cases move_registry move with
  | kept proposals outcomes waiters leads =>
      apply answering_quiet answering valid up holds extended grown proposals outcomes leads
      intro index channel waiting
      rw [waiters] at waiting
      exact waiting
  | dropped index asked proposals outcomes waiters leads =>
      apply answering_quiet answering valid up holds extended grown proposals outcomes
        fun leader => ⟨leads.1.trans leader, leads.2⟩
      intro other channel waiting
      rw [waiters, Bucket.get_delete] at waiting
      split at waiting
      · contradiction
      · exact waiting
  | failed proposals waiters outcomes =>
      exact answering_failed answering valid up holds extended grown proposals waiters outcomes
  | registered command asked proposals outcomes waiters stored leads tip =>
      exact answering_registered answering valid up holds extended grown command proposals outcomes
        waiters stored leads.2
  | delivered channel entry result next waiting behind found stepped proposals outcomes waiters
      leads =>
      exact answering_delivered answering applied valid up holds extended grown channel entry result
        next waiting behind found stepped proposals outcomes waiters leads

end Moving

theorem answering_still (answering : Answering c w g) (valid : Replicated c w g counted)
    (holds : Replicated c after reached recounted) (extended : Extends g reached)
    (grown : ∀ id, (w.members id).store.commitIndex ≤ (after.members id).store.commitIndex)
    (outcomes : after.outcomes = w.outcomes)
    (same : ∀ k, registration after.proposals k = registration w.proposals k)
    (longer : w.proposals.length ≤ after.proposals.length)
    (nodes : ∀ id later, (after.members id).node = some later → later.waiters = Bucket.empty ∨
      ∃ node, (w.members id).node = some node ∧ later.waiters = node.waiters ∧
        later.role = node.role ∧ later.currentTerm = node.currentTerm)
    (finished : ∀ (k : Nat) (proposal : Proposal ρ) (result : Option ρ),
      after.proposals[k]? = some proposal → proposal.state = .finished (.ok result) →
        (k, .ok result) ∈ w.outcomes) : Answering c after reached := by
  have more (k : Nat) (found : String × LogEntry)
      (registered : registration w.proposals k = some found) :
      registration after.proposals k = some found := (same k).trans registered
  apply answering_grow answering valid holds extended grown [] (by simp [outcomes]) more (by simp)
    longer _ (by simp)
  · intro k proposal result found state
    rw [outcomes]
    exact finished k proposal result found state
  · intro id later running index channel waiting
    rcases nodes id later running with empty | ⟨node, up, waiters, role, term⟩
    · rw [empty, Bucket.get_empty] at waiting
      contradiction
    · rw [waiters] at waiting
      rw [outcomes]
      exact pending_member answering valid extended more up
        (fun leader => ⟨role.trans leader, term⟩) waiting

theorem registration_modify (proposals : List (Proposal ρ)) (j k : Nat) (state : ProposalState ρ) :
    registration (proposals.modify j fun p => { p with state := state }) k =
      registration proposals k := by
  unfold registration
  rw [List.getElem?_modify]
  split <;> cases proposals[k]? <;> rfl

theorem answering_proposal {k : Nat} {state : ProposalState ρ} (answering : Answering c w g)
    (valid : Replicated c w g counted)
    (earned : ∀ result, state = .finished (.ok result) → (k, .ok result) ∈ w.outcomes)
    (holds : Replicated c (w.setProposal k state) reached recounted)
    (extended : Extends g reached) : Answering c (w.setProposal k state) reached := by
  apply answering_still answering valid holds extended (fun _ => Nat.le_refl _) rfl
    (fun j => registration_modify _ _ _ _) (by simp [World.setProposal])
  · exact fun id node up => Or.inr ⟨node, up, rfl, rfl, rfl⟩
  · intro j proposal result found finished
    simp only [World.setProposal, List.getElem?_modify] at found
    split at found
    · subst j
      obtain ⟨old, _, rfl⟩ := Option.map_eq_some_iff.mp found
      exact earned result finished
    · exact answering.finished j proposal result (by simpa using found) finished

theorem answering_turn {plan : Plan} {inp : Input} (answering : Answering c w g)
    (applied : ∀ id, Applied c (g.log id) (w.members id)) (valid : Replicated c w g counted)
    (turn : Turn c plan inp w after) (holds : Replicated c after reached recounted)
    (extended : Extends g reached) : Answering c after reached := by
  have grown (id : String) := member_commitIndex valid (turn_member turn id)
  have still := answering_still answering valid holds extended grown
  cases turn with
  | move id node s up arrived move =>
      exact answering_move answering (applied id) valid up move holds extended grown
  | proposal k state earned => exact answering_proposal answering valid earned holds extended
  | count k call req resp node sent asked answered pending up given counts =>
      apply still rfl (fun _ => rfl) (Nat.le_refl _) _ answering.finished
      intro id later running
      by_cases self : id = call.source
      · subst id
        rw [put_member] at running
        cases running
        exact Or.inr ⟨node, up, rfl, rfl, rfl⟩
      · rw [put_member_ne _ _ _ id self] at running
        exact Or.inr ⟨later, running, rfl, rfl, rfl⟩
  | wake other clusterID member stopped =>
      apply still rfl (fun _ => rfl) (Nat.le_refl _) _ answering.finished
      intro id later running
      by_cases self : id = other
      · subst other
        rw [put_member] at running
        cases running
        exact Or.inl rfl
      · rw [put_member_ne w other _ id self] at running
        exact Or.inr ⟨later, running, rfl, rfl, rfl⟩
  | down other =>
      apply still rfl (fun _ => rfl) (Nat.le_refl _) _ answering.finished
      exact fun id later running => Or.inr ⟨later, down_up running, rfl, rfl, rfl⟩
  | _ =>
      apply still rfl (fun _ => rfl) (Nat.le_refl _) _ answering.finished
      exact fun id later running => Or.inr ⟨later, running, rfl, rfl, rfl⟩

theorem answering_reachable (checkpoints : Checkpoints c.apply)
    (reachable : c.Reachable Plan.clean w) :
    ∃ g counted, Replicated c w g counted ∧ Answering c w g := by
  obtain ⟨⟨g, counted⟩, ⟨valid, _, answering⟩, _⟩ := run_answered
    (fun w (state : History × (String → Finset String)) => Replicated c w state.1 state.2 ∧
      (∀ id, Applied c (state.1.log id) (w.members id)) ∧ Answering c w state.1)
    (fun _ _ => True) (fun _ => trivial) (fun _ _ _ _ _ => trivial)
    (by
      rintro w after ⟨g, counted⟩ ⟨plan, inp, clean, turn⟩ ⟨valid, applied, answering⟩
      obtain ⟨reached, recounted, holds, extended⟩ := replicated_turn clean valid turn
      refine ⟨(reached, recounted), ⟨holds, fun id => ?_, ?_⟩, trivial⟩
      · exact applied_turn checkpoints (applied id) valid turn holds extended
      · exact answering_turn answering applied valid turn holds extended)
    (later_taken reachable) (g := (Replicas.init String LogEntry, fun _ => ∅))
    ⟨⟨votes_init c, logs_init c⟩, fun _ => applied_init c, answering_init c⟩
  exact ⟨g, counted, valid, answering⟩

end Turns

section Calls

variable {c : Cluster σ ρ} {apply : Option (ApplyFunc σ ρ)} {plan : Plan} {inp : Input}

theorem move_id {s t : Local σ ρ} (move : Move apply plan inp s t) : t.node.id = s.node.id := by
  cases move with
  | stepDown term leaderID =>
      rw [follow_node, Local.advanceTerm]
      split <;> rfl
  | applyNext after entry result _ _ applied => exact (sameBallot_deliver applied).id
  | recordMatch peer term resp => exact (sameBallot_recordMatch _ _).id
  | _ => rfl

theorem moves_proposals {s t : Local σ ρ} (path : Moves apply plan inp s t) :
    t.node.id = s.node.id ∧ ∃ added, t.proposals = s.proposals ++ added ∧
      ∀ proposal ∈ added, proposal.node = s.node.id ∧ proposal.entry.kind = .command ∧
        inp = .proposal proposal.entry.command := by
  -- The proposals a handler registers carry the command it was given.
  induction path with
  | refl => exact ⟨rfl, [], (List.append_nil _).symm, by simp⟩
  | tail _ move ih =>
      obtain ⟨same, added, grown, own⟩ := ih
      refine ⟨(move_id move).trans same, ?_⟩
      cases move_registry move with
      | registered command asked proposals =>
          refine ⟨added ++ _, by rw [proposals, grown, List.append_assoc], ?_⟩
          intro proposal member
          rcases List.mem_append.mp member with old | new
          · exact own proposal old
          · obtain rfl := List.mem_singleton.mp new
            exact ⟨same, rfl, asked⟩
      | kept proposals | dropped _ _ proposals | failed proposals | delivered _ _ _ _ _ _ _ _ proposals =>
          exact ⟨added, proposals.trans grown, own⟩

theorem propose_registers {w v : World σ ρ} {id : String} {command : List UInt8}
    (proposed : c.step plan w (.propose id command) = some v) :
    ∃ node added, (w.members id).node = some node ∧ v.proposals = w.proposals ++ added ∧
      ∀ proposal ∈ added, proposal.node = node.id ∧ proposal.entry.kind = .command ∧
        proposal.entry.command = command := by
  simp only [Cluster.step, World.run] at proposed
  cases up : (w.members id).node with
  | none => simp [up] at proposed
  | some node =>
      have traced : Traced c.apply plan (.proposal command) (w.view id node)
          (handlePropose command) (fun _ _ => True) [] (w.view id node) :=
        traced_handlePropose command rfl
      have moved : ∃ s, Moves c.apply plan (.proposal command) (w.view id node) s ∧
          v.proposals = s.proposals := by
        simp only [up] at proposed
        simp only [Traced, Proc.wp] at traced
        rcases ran : (handlePropose command).run plan [] (w.view id node) with ⟨_ | value, calls, s⟩
        · rw [ran] at traced proposed
          obtain ⟨reached, path, outside⟩ := traced
          cases proposed
          exact ⟨reached, path, outside.2.2.1.symm⟩
        · rw [ran] at traced proposed
          cases proposed
          exact ⟨s, traced.1, rfl⟩
      obtain ⟨s, path, same⟩ := moved
      obtain ⟨_, added, grown, own⟩ := moves_proposals path
      refine ⟨node, added, rfl, same.trans grown, fun proposal member => ?_⟩
      obtain ⟨owner, kind, asked⟩ := own proposal member
      exact ⟨owner, kind, (Input.proposal.inj asked).symm⟩

theorem turn_registration {inp : Input} {w after : World σ ρ} (turn : Turn c plan inp w after)
    {k : Nat} {found : String × LogEntry} (registered : registration w.proposals k = some found) :
    registration after.proposals k = some found := by
  cases turn with
  | move id node s up arrived move =>
      obtain ⟨_, added, grown, _⟩ := moves_proposals (Relation.ReflTransGen.single move)
      rw [put_proposals, grown]
      exact registration_append _ _ _ _ registered
  | proposal j state earned =>
      rw [World.setProposal, registration_modify]
      exact registered
  | _ => exact registered

theorem registration_later {allowed : Plan → Prop} {w after : World σ ρ}
    (run : c.Later allowed w after) {k : Nat} {found : String × LogEntry}
    (registered : registration w.proposals k = some found) :
    registration after.proposals k = some found :=
  run_invariant (fun w => registration w.proposals k = some found)
    (fun _ _ ⟨_, _, _, turn⟩ => turn_registration turn) (later_taken run) registered

end Calls

theorem finished_result {c : Cluster σ ρ} {u : World σ ρ} {g : History}
    {counted : String → Finset String} (valid : Replicated c u g counted)
    (answering : Answering c u g) (k : Nat) (proposal : Proposal ρ) (result : Option ρ)
    (found : u.proposals[k]? = some proposal)
    (finished : proposal.state = .finished (.ok result)) :
    u.Committed proposal.node proposal.entry.index ∧
      u.entry proposal.node proposal.entry.index = some proposal.entry ∧
      ∃ state next, replay c.apply 1
          ((u.members proposal.node).store.entries 1 (proposal.entry.index - 1)) (0, c.app) =
            .ok state ∧
        transition c.apply proposal.entry.index proposal.entry state = .ok (result, next) := by
  -- What a finished call was given is what its node committed and applied.
  have outcome := answering.finished k proposal result found finished
  obtain ⟨id, entry, registered, delivered⟩ := answering.delivered k result outcome
  rw [registration, found, Option.map_some, Option.some.injEq, Prod.mk.injEq] at registered
  obtain ⟨rfl, rfl⟩ := registered
  obtain ⟨positive, committed, present, state, next, replayed, stepped⟩ := delivered
  have stores := valid.logs.stores proposal.node
  refine ⟨Or.inl committed, ?_, state, next, ?_, stepped⟩
  · have entry := storesLog_entry stores (proposal.entry.index - 1)
    rw [Nat.sub_add_cancel positive] at entry
    exact entry.trans present
  · rw [storesLog_entries stores _ _ (Nat.le_refl 1), Nat.sub_self, List.drop_zero,
      Nat.add_sub_cancel]
    exact replayed

/-- A channel gets at most one outcome. If a `Propose` call returns a result, the
entry it appended is committed at its index, and the result is what applying that
entry there, after the committed entries before it, gives. -/
theorem proposer_gets_own_result (c : Cluster σ ρ) (checkpoints : Checkpoints c.apply)
    (u : World σ ρ) (reachable : c.Reachable Plan.clean u) :
    (u.outcomes.map Prod.fst).Nodup ∧
    ∀ (w v : World σ ρ) (plan : Plan) (id : String) (command : List UInt8) (k : Nat)
      (proposal : Proposal ρ) (result : Option ρ), c.Reachable Plan.clean w → plan.clean →
      c.step plan w (.propose id command) = some v → c.Later Plan.clean v u →
      w.proposals.length ≤ k → k < v.proposals.length → u.proposals[k]? = some proposal →
      proposal.state = .finished (.ok result) →
      proposal.node = id ∧ proposal.entry.kind = .command ∧ proposal.entry.command = command ∧
        u.Committed id proposal.entry.index ∧
        u.entry id proposal.entry.index = some proposal.entry ∧
        ∃ state next, replay c.apply 1
            ((u.members id).store.entries 1 (proposal.entry.index - 1)) (0, c.app) = .ok state ∧
          transition c.apply proposal.entry.index proposal.entry state = .ok (result, next) := by
  obtain ⟨g, counted, valid, answering⟩ := answering_reachable checkpoints reachable
  refine ⟨answering.once, ?_⟩
  intro w v plan id command k proposal result before clean proposed run old new found finished
  obtain ⟨node, added, up, grown, own⟩ := propose_registers proposed
  obtain ⟨_, _, voted⟩ := replicated_reachable before
  have identity := (voted.votes.nodes id node up).identity
  obtain ⟨registered, present⟩ : ∃ registered, v.proposals[k]? = some registered :=
    ⟨_, List.getElem?_eq_getElem new⟩
  have member : registered ∈ added := by
    rw [grown, List.getElem?_append_right old] at present
    exact List.mem_of_getElem? present
  obtain ⟨owner, kind, same⟩ := own registered member
  -- the call is still the one registered when `command` was proposed
  have kept := registration_later run
    (show registration v.proposals k = some (registered.node, registered.entry) by
      rw [registration, present]; rfl)
  rw [registration, found, Option.map_some, Option.some.injEq, Prod.mk.injEq] at kept
  have owned : proposal.node = id := kept.1.trans (owner.trans identity)
  have result := finished_result valid answering k proposal result found finished
  rw [owned] at result
  exact ⟨owned, kept.2 ▸ kind, kept.2 ▸ same, result⟩

def tally : Cluster Nat Nat where
  ids := ["a", "b", "c"]
  distinct := three_distinct
  named := three_named
  clusterID := "tally"
  apply := some fun index _ _ state => .ok (state.2 + 1, index, state.2 + 1)
  app := 0

theorem proposer_gets_own_result_tally : ∃ w v u proposal, tally.Reachable Plan.clean w ∧
    tally.step Plan.smooth w (.propose "a" [7]) = some v ∧ tally.Later Plan.clean v u ∧
    u.proposals[0]? = some proposal ∧ proposal.state = .finished (.ok (some 2)) ∧
    proposal.entry.command = [7] ∧ u.entry "a" proposal.entry.index = some proposal.entry := by
  have played : ((tally.steps tally.init (smoothly electFirst)).bind fun w =>
      (tally.step Plan.smooth w (.propose "a" [7])).bind fun v =>
        (tally.steps v (smoothly [.deliver 4, .respond 4 1, .collect 0])).map fun u =>
          (w.proposals.length, v.proposals.length, u.proposals[0]?.map (·.state))) =
      some (0, 1, some (.finished (.ok (some 2)))) := by decide +kernel
  obtain ⟨w, ran, played⟩ := Option.bind_eq_some_iff.mp played
  obtain ⟨v, proposed, played⟩ := Option.bind_eq_some_iff.mp played
  obtain ⟨u, more, seen⟩ := Option.map_eq_some_iff.mp played
  simp only [Prod.mk.injEq, Option.map_eq_some_iff] at seen
  obtain ⟨none, one, proposal, found, finished⟩ := seen
  have reachable : tally.Reachable Plan.clean w := smoothly_later tally _ _ w smooth_clean ran
  have run : tally.Later Plan.clean v u := smoothly_later tally _ v u smooth_clean more
  have next : tally.Later Plan.clean w v :=
    Relation.ReflTransGen.single ⟨_, _, smooth_clean, proposed⟩
  have checkpoints : Checkpoints tally.apply := by
    rintro index entry state result _ ⟨⟩
    rfl
  obtain ⟨_, _, same, _, kept, _⟩ := (proposer_gets_own_result tally checkpoints u
    ((reachable.trans next).trans run)).2 w v Plan.smooth "a" [7] 0 proposal (some 2) reachable
    smooth_clean proposed run (Nat.le_of_eq none) (by omega) found finished
  exact ⟨w, v, u, proposal, reachable, proposed, run, found, finished, same, kept⟩

end QuorumLimiter
