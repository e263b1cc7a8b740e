import QuorumLimiter.Raft.Campaign

/-!
Whatever has happened, a call can still be answered, provided the requests get
through. Once there is a leader the command is appended to its log; the peers are
brought up to it one by one, a refusal moving `nextIndex` down each time; and as soon as
a majority has it, it is committed, applied and its waiter gets the result.
-/

namespace QuorumLimiter

open Relation ReplicatedLog Simulation

variable {σ ρ : Type}

section Applying

variable {c : Cluster σ ρ} {log : List LogEntry} {s : Local σ ρ} {calls : List StoreOp}

/-- The node applied its log up to `target` and told everyone who waited for that. -/
structure CaughtUp (s t : Local σ ρ) (target : Nat) : Prop where
  node : ∃ waiters, t.node = { s.node with lastApplied := target, waiters := waiters }
  log : t.store.log = s.store.log
  proposals : t.proposals = s.proposals
  kept : ∀ outcome ∈ s.outcomes, outcome ∈ t.outcomes
  told : ∀ index k, s.node.lastApplied < index → index ≤ target →
    s.node.waiters.get index = some k → ∃ result, (k, .ok result) ∈ t.outcomes
  waiting : ∀ index, target < index → t.node.waiters.get index = s.node.waiters.get index

theorem caughtUp_refl (s : Local σ ρ) : CaughtUp s s s.node.lastApplied :=
  ⟨⟨s.node.waiters, rfl⟩, rfl, rfl, fun _ member => member, by intros; omega, fun _ _ => rfl⟩

theorem caughtUp_deliver (s : Local σ ρ) (index : Nat) (next : index = s.node.lastApplied + 1)
    (result : Option ρ) (change : Store σ → Store σ)
    (same : ∀ store, (change store).log = store.log) :
    CaughtUp s ((s.onStore change).deliver index result) index := by
  unfold Local.deliver
  split
  · rename_i absent
    refine ⟨⟨s.node.waiters, rfl⟩, same _, rfl, fun _ member => member, ?_, fun _ _ => rfl⟩
    intro other k above below waits
    obtain rfl : other = index := by omega
    cases absent.symm.trans waits
  · rename_i channel present
    refine ⟨⟨_, rfl⟩, same _, rfl, fun _ member => List.mem_append_left _ member, ?_, ?_⟩
    · intro other k above below waits
      obtain rfl : other = index := by omega
      cases present.symm.trans waits
      exact ⟨result, List.mem_append_right _ (List.mem_singleton_self _)⟩
    · intro other above
      change (s.node.waiters.delete index).get other = _
      rw [Bucket.get_delete, if_neg (by omega)]

theorem caughtUp_trans {first second third : Local σ ρ} {middle target : Nat}
    (early : CaughtUp first second middle) (late : CaughtUp second third target)
    (order : middle ≤ target) : CaughtUp first third target := by
  obtain ⟨waiters, node⟩ := early.node
  obtain ⟨left, last⟩ := late.node
  have applied : second.node.lastApplied = middle := by rw [node]
  refine ⟨⟨left, by rw [last, node]⟩, late.log.trans early.log,
    late.proposals.trans early.proposals, fun _ member => late.kept _ (early.kept _ member), ?_, ?_⟩
  · intro index k above below waits
    by_cases reached : index ≤ middle
    · obtain ⟨result, told⟩ := early.told index k above reached waits
      exact ⟨result, late.kept _ told⟩
    · exact late.told index k (by omega) below ((early.waiting index (by omega)).trans waits)
  · intro index above
    exact (late.waiting index above).trans (early.waiting index (by omega))

theorem ends_applyLoop_total (rounds : Nat) (ready : Ready c log s)
    (inside : s.node.lastApplied + rounds ≤ log.length) :
    Ends (applyLoop c.apply rounds) calls s (fun _ after =>
      CaughtUp s after (s.node.lastApplied + rounds)) := by
  induction rounds generalizing s calls with
  | zero => exact caughtUp_refl s
  | succ rounds ih =>
      obtain ⟨entry, result, next, found, applied, replayed⟩ := ready_next ready (by omega)
      apply ends_get
      apply ends_read
      rw [found]
      apply ends_applied applied
      intro calls
      have first := caughtUp_deliver s _ rfl result
        (fun store => { store with lastApplied := next.1, app := next.2 }) fun _ => rfl
      obtain ⟨waiters, node⟩ := first.node
      generalize moved : (s.onStore fun store =>
        { store with lastApplied := next.1, app := next.2 }).deliver (s.node.lastApplied + 1)
          result = t at first node
      have store : t.store = { s.store with lastApplied := next.1, app := next.2 } := by
        rw [← moved, deliver_store]
        rfl
      have lastApplied : t.node.lastApplied = s.node.lastApplied + 1 := by rw [node]
      have readyNext : Ready c log t := by
        refine ⟨ready.checkpoints, first.log ▸ ready.stores, ?_, ready.total⟩
        rw [lastApplied, store]
        exact replayed
      change Ends (applyLoop c.apply rounds) calls
        ((s.onStore _).deliver (s.node.lastApplied + 1) result) _
      rw [moved]
      apply ends_mono (ih readyNext (by omega))
      intro _ after later
      have reach : s.node.lastApplied + (rounds + 1) = t.node.lastApplied + rounds := by omega
      rw [reach]
      exact caughtUp_trans first later (by omega)

end Applying

section Committing

variable {c : Cluster σ ρ} {log : List LogEntry} {s : Local σ ρ} {calls : List StoreOp}

structure Informed (c : Cluster σ ρ) (log : List LogEntry) (s : Local σ ρ) : Prop where
  ready : Ready c log s
  role : s.node.role = .leader
  applied : s.node.lastApplied ≤ s.node.commitIndex
  cached : s.node.lastLogIndex = log.length
  ordered : log.Pairwise fun earlier later => earlier.term ≤ later.term
  current : ∀ entry ∈ log, entry.term ≤ s.node.currentTerm
  distinct : (s.node.id :: s.node.peers).Nodup
  quorum : s.node.quorum = (s.node.peers.length + 1) / 2 + 1
  several : 1 ≤ s.node.peers.length
  acknowledged : ∀ peer ∈ s.node.peers, s.node.matchIndex peer ≤ s.node.lastLogIndex

theorem informed_counts (informed : Informed c log s) (index : Nat) :
    s.node.quorum ≤ (s.node.holders index).card ↔ index ≤ s.node.majorityIndex := by
  have half := informed.quorum
  have several := informed.several
  exact quorum_holders s.node index informed.distinct (by omega) (by omega)

theorem informed_within (informed : Informed c log s) : s.node.majorityIndex ≤ log.length := by
  have held := (informed_counts informed s.node.majorityIndex).mpr (Nat.le_refl _)
  have half := informed.quorum
  obtain ⟨holder, inside⟩ :=
    Finset.card_pos.mp (show 0 < (s.node.holders s.node.majorityIndex).card by omega)
  obtain ⟨listed, reached⟩ := Finset.mem_filter.mp inside
  rw [Node.heldBy] at reached
  rw [← informed.cached]
  by_cases own : holder = s.node.id
  · rwa [if_pos own] at reached
  · rw [if_neg own] at reached
    rw [List.mem_toFinset, List.mem_cons] at listed
    exact reached.trans (informed.acknowledged holder (listed.resolve_left own))

theorem ends_advanceCommit_total (informed : Informed c log s) :
    Ends (advanceCommit c.apply) calls s (fun _ after =>
      ¬ s.mayCommit ∧ after = s ∨
        s.mayCommit ∧ ∃ t, CaughtUp ((s.setCommit s.node.majorityIndex).onStore
          (·.setCommitIndex s.node.majorityIndex)) t s.node.majorityIndex ∧
          after = { t with calls := t.calls ++ t.requests t.node.peers }) := by
  apply ends_get
  dsimp only
  by_cases reached : s.node.majorityIndex ≤ s.node.commitIndex
  · rw [if_pos reached]
    exact Or.inl ⟨fun may => absurd may.1 (by omega), rfl⟩
  · rw [if_neg reached]
    apply ends_read
    cases found : s.store.entry s.node.majorityIndex with
    | none =>
        refine Or.inl ⟨?_, rfl⟩
        rintro ⟨_, entry, present, _⟩
        cases found.symm.trans present
    | some entry =>
        dsimp only
        by_cases older : entry.term ≠ s.node.currentTerm
        · rw [if_pos older]
          refine Or.inl ⟨?_, rfl⟩
          rintro ⟨_, other, present, same⟩
          cases found.symm.trans present
          exact older same
        · rw [if_neg older]
          apply ends_update
          apply ends_write
          have within := informed_within informed
          have behind := informed.applied
          have ready : Ready c log ((s.setCommit s.node.majorityIndex).onStore
              (·.setCommitIndex s.node.majorityIndex)) :=
            ⟨informed.ready.checkpoints, informed.ready.stores, informed.ready.replayed,
              informed.ready.total⟩
          have all : s.node.lastApplied + (s.node.majorityIndex - s.node.lastApplied) =
              s.node.majorityIndex := by omega
          apply ends_bind (ends_applyLoop_total (s.node.majorityIndex - s.node.lastApplied) ready
            (by change s.node.lastApplied + _ ≤ _; omega))
          intro _ _ t caught
          change CaughtUp _ t (s.node.lastApplied + _) at caught
          rw [all] at caught
          obtain ⟨waiters, node⟩ := caught.node
          apply ends_mono (ends_replicateToAll_sends (s := t) (by rw [node]; exact informed.role))
          rintro _ after rfl
          exact Or.inr ⟨⟨by omega, entry, found, not_not.mp older⟩, t, caught, rfl⟩

end Committing

section Waiting

variable {c : Cluster σ ρ} {log : List LogEntry} {s : Local σ ρ} {calls : List StoreOp}
  {m : String} {term k : Nat} {entry : LogEntry} {done : List String}

/-- The leader's last entry has a waiter, and the peers of `done` are known to have it. -/
structure Waiting (m : String) (term k : Nat) (entry : LogEntry) (done : List String)
    (s : Local σ ρ) : Prop where
  role : s.node.role = .leader
  led : s.node.currentTerm = term
  tip : s.node.lastLogIndex = entry.index
  uncommitted : s.node.commitIndex < entry.index
  waiter : s.node.waiters.get entry.index = some k
  matched : ∀ peer ∈ done, entry.index ≤ s.node.matchIndex peer
  stored : s.store.entry entry.index = some entry
  written : entry.term = term
  proposed : s.proposals[k]? = some ⟨m, entry, .waiting⟩

structure Told (m : String) (k : Nat) (entry : LogEntry) (s : Local σ ρ) : Prop where
  result : ∃ result, (k, .ok result) ∈ s.outcomes
  proposed : s.proposals[k]? = some ⟨m, entry, .waiting⟩

theorem recordMatch_facts (peer : String) (index : Nat) (n : Node) :
    ∃ matchIndex nextIndex, recordMatch peer index n =
        { n with matchIndex := matchIndex, nextIndex := nextIndex } ∧
      index ≤ matchIndex peer ∧
      ∀ other, n.matchIndex other ≤ matchIndex other ∧
        (matchIndex other ≤ n.matchIndex other ∨ matchIndex other = index) := by
  unfold recordMatch
  split
  · rename_i more
    refine ⟨_, _, rfl, by simp, ?_⟩
    intro other
    by_cases same : other = peer
    · subst other
      rw [if_pos rfl]
      omega
    · rw [if_neg same]
      omega
  · exact ⟨n.matchIndex, n.nextIndex, rfl, by omega, fun other => by omega⟩

theorem ends_refused {apply : Option (ApplyFunc σ ρ)} {peer : String}
    {resp : AppendEntriesResponse} (role : s.node.role = .leader)
    (current : term = s.node.currentTerm) (known : resp.term ≤ s.node.currentTerm)
    (denied : resp.success = false) :
    Ends (handleAppendResponse apply peer term resp false) calls s (fun _ after =>
      ∃ more, after =
        { s.onNode (setNextIndex peer (hintedNext s resp)) with calls := s.calls ++ more }) := by
  apply ends_get
  dsimp only
  rw [if_neg (by simp), if_neg (by omega), if_neg (by simp [role, current]),
    if_neg (by simp [denied])]
  apply ends_bind (ends_backupNextIndex _ _)
  rintro _ calls _ rfl
  apply ends_mono (ends_replicateToPeer peer
    (show (s.onNode (setNextIndex peer (hintedNext s resp))).node.role = .leader from role))
  rintro _ _ rfl
  exact ⟨_, rfl⟩

theorem waiting_recorded (waiting : Waiting m term k entry done s) (informed : Informed c log s)
    (peer : String) :
    Waiting m term k entry (peer :: done) (s.onNode (recordMatch peer entry.index)) ∧
      Informed c log (s.onNode (recordMatch peer entry.index)) := by
  obtain ⟨matchIndex, nextIndex, recorded, reached, bounds⟩ :=
    recordMatch_facts peer entry.index s.node
  rw [Local.onNode, recorded]
  refine ⟨⟨waiting.role, waiting.led, waiting.tip, waiting.uncommitted, waiting.waiter, ?_,
    waiting.stored, waiting.written, waiting.proposed⟩, ⟨⟨informed.ready.checkpoints,
    informed.ready.stores, informed.ready.replayed, informed.ready.total⟩, informed.role,
    informed.applied, informed.cached, informed.ordered, informed.current, informed.distinct,
    informed.quorum, informed.several, ?_⟩⟩
  · intro other member
    rcases List.mem_cons.mp member with rfl | known
    · exact reached
    · exact (waiting.matched other known).trans (bounds other).1
  · intro other listed
    have tip := waiting.tip
    have before := informed.acknowledged other listed
    change matchIndex other ≤ s.node.lastLogIndex
    rcases (bounds other).2 with below | same
    · omega
    · omega

theorem ends_committed (waiting : Waiting m term k entry done s) (informed : Informed c log s) :
    Ends (advanceCommit c.apply) calls s (fun _ after =>
      Told m k entry after ∨ Waiting m term k entry done after ∧
        after.store.log = s.store.log ∧
        ¬ after.node.quorum ≤ (after.node.holders entry.index).card) := by
  have counts := informed_counts informed
  apply ends_mono (ends_advanceCommit_total informed)
  rintro _ after (⟨blocked, rfl⟩ | ⟨may, t, caught, rfl⟩)
  · refine Or.inr ⟨waiting, rfl, fun held => blocked ?_⟩
    exact mayCommit_of_committable informed.ready.stores informed.ordered informed.current
      (informed_within informed) counts
      ⟨waiting.uncommitted, held, entry, waiting.stored, waiting.written.trans waiting.led.symm⟩
  · obtain ⟨waiters, node⟩ := caught.node
    have applied := informed.applied
    have open' := waiting.uncommitted
    by_cases enough : entry.index ≤ s.node.majorityIndex
    · refine Or.inl ⟨caught.told entry.index k ?_ enough waiting.waiter, ?_⟩
      · change s.node.lastApplied < entry.index
        omega
      · change t.proposals[k]? = _
        rw [caught.proposals]
        exact waiting.proposed
    · have left := caught.waiting entry.index (by omega)
      have entries : t.store.entry entry.index = s.store.entry entry.index := by
        rw [Store.entry, caught.log]
        rfl
      dsimp only [Local.setCommit, onNode_node, onStore_node] at node
      refine Or.inr ⟨⟨?_, ?_, ?_, ?_, left.trans waiting.waiter, ?_, entries.trans waiting.stored,
        waiting.written, caught.proposals ▸ waiting.proposed⟩, caught.log, ?_⟩
      · rw [node]
        exact waiting.role
      · rw [node]
        exact waiting.led
      · rw [node]
        exact waiting.tip
      · rw [node]
        exact Nat.lt_of_not_le enough
      · rw [node]
        exact waiting.matched
      · rw [node]
        exact fun held => enough ((counts _).mp held)

theorem ends_acknowledged {peer : String} {resp : AppendEntriesResponse}
    (waiting : Waiting m term k entry done s) (informed : Informed c log s)
    (current : resp.term ≤ term) (success : resp.success = true)
    (whole : resp.matchIndex = entry.index) :
    Ends (handleAppendResponse c.apply peer term resp false) calls s (fun _ after =>
      Told m k entry after ∨ Waiting m term k entry (peer :: done) after ∧
        after.store.log = s.store.log ∧
        ¬ after.node.quorum ≤ (after.node.holders entry.index).card) := by
  obtain ⟨recorded, knows⟩ := waiting_recorded waiting informed peer
  have led := waiting.led
  apply ends_get
  dsimp only
  rw [if_neg (by simp), if_neg (by omega), if_neg (by simp [waiting.role, led]), if_pos success,
    whole]
  apply ends_update
  exact ends_committed recorded knows

end Waiting

section Rounds

variable {c : Cluster σ ρ} {net : Traffic} {w : World σ ρ} {m : String}
  {term k : Nat} {entry : LogEntry} {done : List String} {log : List LogEntry}

theorem informed_same {s t : Local σ ρ} (informed : Informed c log s) (node : t.node = s.node)
    (store : t.store = s.store) : Informed c log t := by
  obtain ⟨_, _, _, _, _⟩ := t
  dsimp only at node store
  subst node store
  exact ⟨⟨informed.ready.checkpoints, informed.ready.stores, informed.ready.replayed,
    informed.ready.total⟩, informed.role, informed.applied, informed.cached, informed.ordered,
    informed.current, informed.distinct, informed.quorum, informed.several, informed.acknowledged⟩

theorem waiting_same {s t : Local σ ρ} (waiting : Waiting m term k entry done s)
    (node : t.node = s.node) (store : t.store = s.store)
    (proposals : s.proposals <+: t.proposals) : Waiting m term k entry done t := by
  obtain ⟨_, _, _, _, _⟩ := t
  dsimp only at node store
  subst node store
  exact ⟨waiting.role, waiting.led, waiting.tip, waiting.uncommitted, waiting.waiter,
    waiting.matched, waiting.stored, waiting.written, getElem?_grown proposals waiting.proposed⟩

theorem leader_informed (applies : Applies c net.asks) (several : 2 ≤ c.ids.length)
    (serving : Serving c net.asks w) {node : Node} (up : (w.members m).node = some node)
    (leader : node.role = .leader) :
    ∃ g counted, Replicated c w g counted ∧ Informed c (g.log m) (w.view m node) := by
  obtain ⟨g, counted, valid, applied⟩ := applied_reachable applies.checkpoints serving.reachable
  have votes := valid.votes.nodes m node up
  have logs := valid.logs.nodes m node up
  have loaded := (applied m).loaded node up
  have bounded := (applied m).bounded
  have permuted : (node.id :: node.peers).Perm c.ids := by
    rw [votes.identity, votes.peers]
    exact Voting.perm_others c.ids m c.distinct votes.member
  have size : node.peers.length + 1 = c.ids.length := permuted.length_eq
  have sameTerm : g.term m = node.currentTerm := (valid.votes.term m).trans votes.term.symm
  obtain ⟨voters, won⟩ := votes.leading leader
  refine ⟨g, counted, valid, ⟨⟨applies.checkpoints, valid.logs.stores m, ?_,
    log_applies applies serving valid m⟩, leader, ?_, logs.lastIndex, ?_, ?_, ?_, ?_, ?_, ?_⟩⟩
  · change replay c.apply 1 ((g.log m).take node.lastApplied) _ = _
    rw [loaded]
    exact (applied m).replayed
  · change node.lastApplied ≤ node.commitIndex
    rw [loaded, logs.commit]
    exact bounded
  · rw [List.pairwise_iff_getElem]
    intro early late first second order
    exact attributed_sorted valid.logs.sound _ (valid.logs.sound.log_attributed m) early late _ _
      (by omega) (List.getElem?_eq_getElem first) (List.getElem?_eq_getElem second)
  · intro entry member
    change entry.term ≤ node.currentTerm
    rw [← sameTerm]
    exact valid.logs.sound.log_term m entry member
  · exact permuted.nodup_iff.mpr c.distinct
  · change node.quorum = (node.peers.length + 1) / 2 + 1
    rw [size]
    exact votes.quorum
  · change 1 ≤ node.peers.length
    omega
  · intro peer _
    change node.matchIndex peer ≤ node.lastLogIndex
    have acked := logs.matched leader peer
    rcases Nat.eq_zero_or_pos (g.acked peer node.currentTerm) with zero | positive
    · omega
    · obtain ⟨_, _, reach⟩ := valid.logs.sound.acked_bound peer _ positive
      rw [← valid.logs.sound.leader_log _ m voters won sameTerm, ← logs.lastIndex] at reach
      omega

/-- The call's entry waits at the end of the leader's log, and the log gets through. -/
structure Awaiting (c : Cluster σ ρ) (net : Traffic) (m : String) (term k : Nat)
    (entry : LogEntry) (done : List String) (w : World σ ρ) : Prop where
  serving : Serving c net.asks w
  listed : m ∈ c.ids
  terms : w.AllUp c fun _ n => n.currentTerm ≤ term
  waiting : ∃ node, (w.members m).node = some node ∧ Waiting m term k entry done (w.view m node)
  fits : ∀ log, StoresLog (w.members m).store.log log → net.Fits c.clusterID m term log

def Answerable (c : Cluster σ ρ) (net : Traffic) (m : String) (k : Nat)
    (entry : LogEntry) (w : World σ ρ) : Prop :=
  Serving c net.asks w ∧ (∃ result, (k, .ok result) ∈ w.outcomes) ∧
    w.proposals[k]? = some ⟨m, entry, .waiting⟩

theorem ends_received (apply : Option (ApplyFunc σ ρ)) (s : Local σ ρ)
    (req : AppendEntriesRequest) :
    Ends (handleAppendEntries apply req) [] s (fun resp after =>
      receive apply s req = (some resp, after)) := by
  have ends : Ends (handleAppendEntries apply req) [] s _ := ends_handleAppendEntries req
  obtain ⟨resp, made, after, run, _⟩ := ends_run ends
  have received : receive apply s req = (some resp, after) := by
    rw [receive, run]
  simp only [Ends, Proc.wp, run, received]

theorem setNextIndex_self (peer : String) (n : Node) :
    setNextIndex peer (n.nextIndex peer) n = n := by
  have same : (fun other => if other = peer then n.nextIndex peer else n.nextIndex other) =
      n.nextIndex := by
    funext other
    split
    · rename_i equal
      rw [equal]
    · rfl
  rw [setNextIndex, same]

/-- Too few nodes are known to have the entry. -/
def World.Short (w : World σ ρ) (m : String) (index : Nat) : Prop :=
  ∃ node, (w.members m).node = some node ∧ ¬ node.quorum ≤ (node.holders index).card

theorem exchanged_source (w : World σ ρ) (peer : String) (s t : Local σ ρ) (call : Nat)
    (resp : Response) (source : String) :
    (w.exchanged peer s call resp source t).members source = ⟨some t.node, t.store⟩ := by
  rw [World.exchanged, put_member]

/-- The leader has handled an answer and still waits. -/
theorem awaiting_exchanged {v : World σ ρ} {peer : String} {s t : Local σ ρ} {call : Nat}
    {resp : Response} (serving : Serving c net.asks (v.exchanged peer s call resp m t))
    (listed : m ∈ c.ids)
    (terms : (((v.put peer s).answer call resp).settle call).AllUp c
      fun _ n => n.currentTerm ≤ term)
    (waits : Waiting m term k entry done t)
    (fits : ∀ log, StoresLog t.store.log log → net.Fits c.clusterID m term log) :
    Awaiting c net m term k entry done (v.exchanged peer s call resp m t) := by
  have source := exchanged_source v peer s t call resp m
  refine ⟨serving, listed, allUp_put terms (Nat.le_of_eq waits.led), ⟨t.node, ?_, ?_⟩, ?_⟩
  · rw [source]
  · rw [World.exchanged, put_view]
    exact waits
  · rw [source]
    exact fits

/-- One heartbeat, answered by one peer: the call is answered, the peer has the entry
but too few others do, or `nextIndex` of the peer has moved down. -/
theorem awaiting_round (applies : Applies c net.asks) (several : 2 ≤ c.ids.length)
    (awaiting : Awaiting c net m term k entry done w) {p : String} (member : p ∈ c.ids)
    (apart : p ≠ m) {node : Node} (up : (w.members m).node = some node) :
    ∃ u, c.Calmly net w u ∧ (Answerable c net m k entry u ∨
      Awaiting c net m term k entry (p :: done) u ∧ u.Short m entry.index ∨
      Awaiting c net m term k entry done u ∧
        ∃ after, (u.members m).node = some after ∧ after.nextIndex p < node.nextIndex p) := by
  obtain ⟨serving, listed, terms, ⟨_, same, waiting⟩, fits⟩ := awaiting
  cases up.symm.trans same
  obtain ⟨other, running, reached⟩ := terms p member
  have role : node.role = .leader := waiting.role
  obtain rfl : node.currentTerm = term := waiting.led
  obtain ⟨v, call, beaten, beats, atLeader, atPeer, sent, pending⟩ :=
    heartbeat_asks serving up role member apart running
  have viewed : v.view m (w.view m node).beat.node = (w.view m node).beat := by
    rw [beaten, put_view]
  have servingNext := serving_calmly serving beats
  obtain ⟨g, counted, valid, informed⟩ := leader_informed applies several servingNext atLeader role
  have positive := pointed_taken (later_taken serving.reachable) m node up role p
    ((peers_listed serving.reachable up p).mpr ⟨member, apart⟩)
  have bound := (valid.logs.nodes m _ atLeader).next role p
  have facing := replicated_facing valid (identified_reachable servingNext.reachable) atLeader role
    atPeer reached ((w.view m node).beat.node.nextIndex p)
  rw [setNextIndex_self, viewed] at facing
  rw [viewed] at informed
  rw [informed.cached] at bound
  have unchanged : (v.members m).store = (w.members m).store := by
    rw [beaten, put_member]
    rfl
  have stores : StoresLog (w.members m).store.log (g.log m) := unchanged ▸ valid.logs.stores m
  have carried := fits _ stores _ (sends_append serving.reachable up stores role member apart)
  obtain ⟨resp, s, received, more, handled⟩ := exchange_append (c := c) sent carried pending
    apart.symm atLeader atPeer (ends_received c.apply _ _)
  have first : (receive c.apply (v.view p other) ((w.view m node).beat.requestTo p)).1 =
      some resp := congrArg Prod.fst received
  have second : (receive c.apply (v.view p other) ((w.view m node).beat.requestTo p)).2 = s :=
    congrArg Prod.snd received
  -- The peer heeds the request, so it answers in the leader's term.
  obtain ⟨given, same, ⟨_, _, foreign⟩ | ⟨heeded, answers, explains⟩⟩ :=
    receive_spec c.apply (v.view p other) ((w.view m node).beat.requestTo p)
  · exact absurd ⟨rfl, facing.cluster.symm, facing.trailing.reached⟩ foreign
  cases first.symm.trans same
  have answeredTerm : resp.term = node.currentTerm :=
    explains.term.trans (followed_facts heeded.2.2 _).2.1
  obtain ⟨_, trailing, _⟩ := receive_trailing c.apply facing.trailing
    (facing_slice facing p bound) rfl
  rw [second] at trailing
  have termsNext : v.AllUp c fun _ n => n.currentTerm ≤ node.currentTerm := by
    rw [beaten]
    exact allUp_put terms (Nat.le_refl _)
  have termsReplied : (((v.put p s).answer call (.append resp)).settle call).AllUp c
      fun _ n => n.currentTerm ≤ node.currentTerm := allUp_put termsNext trailing.reached
  -- What the leader sees when the answer comes in.
  generalize heard : (v.replied p s call (.append resp)).view m (w.view m node).beat.node = t
  rw [heard] at handled
  have sameNode : t.node = (w.view m node).beat.node := by
    rw [← heard]
    rfl
  have sameStore : t.store = (w.view m node).beat.store := by
    rw [← heard, ← viewed]
    exact congrArg Member.store (put_member_ne v p s m apart.symm)
  have proposals : (w.view m node).beat.proposals <+: t.proposals := by
    rw [← heard, ← viewed]
    exact more
  have beat : Waiting m node.currentTerm k entry done (w.view m node).beat :=
    ⟨waiting.role, waiting.led, waiting.tip, waiting.uncommitted, waiting.waiter, waiting.matched,
      waiting.stored, waiting.written, waiting.proposed⟩
  have still := waiting_same beat sameNode sameStore proposals
  cases success : resp.success with
  | true =>
      have whole : resp.matchIndex = entry.index := by
        rw [answers.matched success, requestTo_whole facing.stores facing.cached p positive bound,
          ← facing.cached]
        exact beat.tip
      obtain ⟨after, outcome, run⟩ := handled _ (ends_acknowledged still
        (informed_same informed sameNode sameStore) (Nat.le_of_eq answeredTerm) success whole)
      have serves := serving_calmly servingNext run
      refine ⟨_, beats.trans run, ?_⟩
      rcases outcome with told | ⟨waits, kept, few⟩
      · exact Or.inl ⟨serves, told.result, told.proposed⟩
      · refine Or.inr (Or.inl ⟨awaiting_exchanged serves listed termsReplied waits ?_, after.node,
          by rw [exchanged_source], few⟩)
        rw [kept, sameStore]
        exact fits
  | false =>
      obtain ⟨lower, _⟩ := facing_refused c.apply facing positive bound first success
      have hinted : hintedNext t resp = hintedNext (w.view m node).beat resp := by
        simp only [hintedNext, sameNode, sameStore]
      obtain ⟨after, ⟨extra, rfl⟩, run⟩ := handled _ (ends_refused still.role still.led.symm
        (Nat.le_of_eq (answeredTerm.trans still.led.symm)) success)
      have serves := serving_calmly servingNext run
      refine ⟨_, beats.trans run, Or.inr (Or.inr ⟨awaiting_exchanged serves listed termsReplied
        ⟨still.role, still.led, still.tip, still.uncommitted, still.waiter, still.matched,
          still.stored, still.written, still.proposed⟩ ?_, _, by rw [exchanged_source], ?_⟩)⟩
      · change ∀ log, StoresLog t.store.log log → _
        rw [sameStore]
        exact fits
      · change (if p = p then hintedNext t resp else _) < _
        rw [if_pos rfl, hinted]
        exact lower

theorem awaiting_acked (applies : Applies c net.asks) (several : 2 ≤ c.ids.length)
    (awaiting : Awaiting c net m term k entry done w) {p : String} (member : p ∈ c.ids)
    (apart : p ≠ m) :
    ∃ u, c.Calmly net w u ∧ (Answerable c net m k entry u ∨
      Awaiting c net m term k entry (p :: done) u ∧ u.Short m entry.index) := by
  -- each refusal moves `nextIndex` down, so the peer accepts at last
  obtain ⟨node, up⟩ : ∃ node, (w.members m).node = some node := by
    obtain ⟨node, up, _⟩ := awaiting.waiting
    exact ⟨node, up⟩
  generalize next : node.nextIndex p = bound
  induction bound using Nat.strong_induction_on generalizing w node with
  | _ bound ih =>
      obtain ⟨u, run, told | acked | ⟨still, after, there, lower⟩⟩ :=
        awaiting_round applies several awaiting member apart up
      · exact ⟨u, run, Or.inl told⟩
      · exact ⟨u, run, Or.inr acked⟩
      · rw [next] at lower
        obtain ⟨x, more, outcome⟩ := ih _ lower still after there rfl
        exact ⟨x, run.trans more, outcome⟩

theorem awaiting_all (applies : Applies c net.asks) (several : 2 ≤ c.ids.length) (peers : List String)
    (others : ∀ p ∈ peers, p ∈ c.ids ∧ p ≠ m)
    (awaiting : Awaiting c net m term k entry done w) :
    ∃ u, c.Calmly net w u ∧ (Answerable c net m k entry u ∨
      Awaiting c net m term k entry (peers ++ done) u) := by
  induction peers with
  | nil => exact ⟨w, ReflTransGen.refl, Or.inr awaiting⟩
  | cons p rest ih =>
      obtain ⟨u, run, told | still⟩ :=
        ih fun other known => others other (List.mem_cons_of_mem _ known)
      · exact ⟨u, run, Or.inl told⟩
      · obtain ⟨member, apart⟩ := others p List.mem_cons_self
        obtain ⟨x, more, told | ⟨acked, _⟩⟩ := awaiting_acked applies several still member apart
        · exact ⟨x, run.trans more, Or.inl told⟩
        · exact ⟨x, run.trans more, Or.inr acked⟩

theorem awaiting_answered (applies : Applies c net.asks) (several : 2 ≤ c.ids.length)
    (awaiting : Awaiting c net m term k entry done w) :
    ∃ u, c.Calmly net w u ∧ Answerable c net m k entry u := by
  have others : ∀ p ∈ c.ids.filter (· ≠ m), p ∈ c.ids ∧ p ≠ m := by
    intro p member
    simpa using List.mem_filter.mp member
  obtain ⟨u, run, told | all⟩ := awaiting_all applies several _ others awaiting
  · exact ⟨u, run, told⟩
  have size := (Voting.perm_others c.ids m c.distinct all.listed).length_eq
  rw [List.length_cons] at size
  obtain ⟨p, known⟩ := List.exists_mem_of_length_pos
    (show 0 < (c.ids.filter (· ≠ m)).length by omega)
  obtain ⟨member, apart⟩ := others p known
  obtain ⟨x, more, told | ⟨acked, node, up, few⟩⟩ :=
    awaiting_acked applies several all member apart
  · exact ⟨x, run.trans more, told⟩
  · -- All nodes have the entry, and they are a majority.
    obtain ⟨_, same, waiting⟩ := acked.waiting
    cases up.symm.trans same
    obtain ⟨g, counted, valid, informed⟩ :=
      leader_informed applies several acked.serving up waiting.role
    have votes := valid.votes.nodes m node up
    have half : node.quorum = _ := informed.quorum
    refine absurd ?_ few
    have everyone : node.holders entry.index = (node.id :: node.peers).toFinset := by
      apply Finset.filter_true_of_mem
      intro holder inside
      rw [Node.heldBy]
      split
      · exact Nat.le_of_eq waiting.tip.symm
      · rename_i different
        rw [List.mem_toFinset, List.mem_cons] at inside
        have peer := inside.resolve_left different
        rw [votes.peers] at peer
        exact waiting.matched holder (List.mem_cons_of_mem _ (List.mem_append_left _ peer))
    have distinct : (node.id :: node.peers).Nodup := informed.distinct
    rw [everyone, List.toFinset_card_of_nodup distinct, List.length_cons, half]
    change (node.peers.length + 1) / 2 + 1 ≤ node.peers.length + 1
    have several : 1 ≤ node.peers.length := informed.several
    omega

end Rounds

section Calling

variable {c : Cluster σ ρ} {net : Traffic} {w : World σ ρ} {m : String} {term : Nat}
  {command : List UInt8}

theorem ends_handlePropose {s : Local σ ρ} {calls : List StoreOp} (role : s.node.role = .leader) :
    Ends (handlePropose command) calls s (fun _ after =>
      ∃ more, after = { s.propose command with calls := s.calls ++ more }) := by
  apply ends_get
  rw [if_neg (not_not.mpr role)]
  apply ends_write
  change Ends (replicateToAll >>= _) _ (s.propose command) _
  apply ends_bind (ends_replicateToAll_sends (s := s.propose command) role)
  rintro _ _ _ rfl
  exact ⟨_, rfl⟩

theorem calmly_proposed (leading : Leading c net command m term w) (wanted : net.asks command) :
    ∃ u entry, c.Calmly net w u ∧ entry.command = command ∧
      Awaiting c net m term w.proposals.length entry [] u := by
  obtain ⟨serving, listed, terms, ⟨node, up, role, led⟩, log, stores, fits⟩ := leading
  have caches := caches_reachable serving.reachable up stores
  have named : node.id = m := reachable_named serving.reachable m node up
  have proposes : Ends (handlePropose command) [] (w.view m node) _ := ends_handlePropose role
  obtain ⟨_, s, ran, more, made⟩ := ends_world up proposes
  have stepped : c.Calmly net w (w.put m s) := by
    apply calmly_step (.propose m command) wanted
    rw [Cluster.step, ran]
    rfl
  have appended : StoresLog s.store.log (proposedTo log term command) := by
    rw [made, proposedTo, ← caches.tip, ← led]
    exact storesLog_put stores (node.commandEntry command) (congrArg (· + 1) caches.tip)
  have sends : ∀ held, StoresLog ((w.put m s).members m).store.log held →
      net.Fits c.clusterID m term held := by
    intro held again
    rw [put_member] at again
    rw [storesLog_unique again appended]
    exact fits
  subst made
  refine ⟨_, node.commandEntry command, stepped, rfl, serving_calmly serving stepped, listed,
    allUp_put terms (Nat.le_of_eq led), ⟨_, by rw [put_member], ?_⟩, sends⟩
  rw [put_view]
  refine ⟨role, led, rfl, ?_, ?_, by rintro p ⟨⟩, ?_, led, ?_⟩
  · change node.commitIndex < node.lastLogIndex + 1
    have commit := caches.commit
    have tip := caches.tip
    omega
  · exact Bucket.get_put_self _ _ _
  · exact Bucket.get_put_self _ _ _
  · change (w.proposals ++ [⟨node.id, _, .waiting⟩])[w.proposals.length]? = _
    rw [List.getElem?_append_right (Nat.le_refl _), Nat.sub_self, named]
    rfl

theorem calmly_collected (checkpoints : Checkpoints c.apply) {k : Nat} {entry : LogEntry}
    (answerable : Answerable c net m k entry w) :
    ∃ u result, c.Calmly net w u ∧ u.Returned k entry result := by
  obtain ⟨serving, ⟨result, told⟩, proposed⟩ := answerable
  obtain ⟨_, _, _, answering⟩ := answering_reachable checkpoints serving.reachable
  have found : w.outcomes.find? (·.1 = k) = some (k, .ok result) := by
    cases first : w.outcomes.find? (·.1 = k) with
    | none =>
        have absent := List.find?_eq_none.mp first _ told
        simp at absent
    | some outcome =>
        have same : outcome.1 = k := by simpa using List.find?_some first
        have one := List.inj_on_of_nodup_map answering.once (List.mem_of_find?_eq_some first) told
          same
        rw [one]
  refine ⟨w.setProposal k (.finished (.ok result)), result, ?_, m, ?_⟩
  · apply calmly_step (.collect k) trivial
    simp only [Cluster.step, proposed, found]
  · simp [World.setProposal, proposed]

/-- From any state a run can reach, calm events lead to one where a call for the
command, made after it, has returned. -/
theorem calmly_returned (applies : Applies c net.asks) (clustered : c.clusterID ≠ "")
    (several : 2 ≤ c.ids.length) (serving : Serving c net.asks w) (wanted : net.asks command)
    (top : Nat) (within : ∀ id ∈ c.ids, (w.members id).store.currentTerm ≤ top)
    (room : ∀ id ∈ c.ids, ∀ log, StoresLog (w.members id).store.log log →
      net.Room c.clusterID id top command log) :
    ∃ u k entry result, c.Calmly net w u ∧ w.proposals.length ≤ k ∧ entry.command = command ∧
      u.Returned k entry result := by
  obtain ⟨v, m, term, elected, leading⟩ := calmly_leading applies clustered several serving
    within room
  obtain ⟨x, entry, proposed, asked, awaiting⟩ := calmly_proposed leading wanted
  obtain ⟨y, answered, answerable⟩ := awaiting_answered applies several awaiting
  obtain ⟨u, result, collected, returned⟩ := calmly_collected applies.checkpoints answerable
  have longer : w.proposals.length ≤ v.proposals.length := by
    rcases Nat.eq_zero_or_pos w.proposals.length with zero | positive
    · omega
    · have last : registration w.proposals (w.proposals.length - 1) = some _ :=
        Option.map_eq_some_iff.mpr ⟨_, List.getElem?_eq_getElem (by omega), rfl⟩
      have kept := registration_length (registration_later (calmly_later elected) last)
      omega
  exact ⟨u, v.proposals.length, entry, result,
    ((elected.trans proposed).trans answered).trans collected, longer, asked, returned⟩

end Calling

theorem tally_applies : Applies tally fun _ => True := by
  refine ⟨tally_checkpoints, fun entries _ => ?_⟩
  have total (log : List LogEntry) (index : Nat) (state : Nat × Nat) :
      ∃ after, replay tally.apply index log state = .ok after := by
    induction log generalizing index state with
    | nil => exact ⟨state, rfl⟩
    | cons entry rest ih => exact ih (index + 1) (index, state.2 + 1)
  exact total entries 1 _

end QuorumLimiter
