import Mathlib.Order.Bounds.Basic
import QuorumLimiter.Lib.Majority
import QuorumLimiter.Raft.Receiver

/-!
The leader's side of replication when no store call fails: the request built for
a peer, the move of `nextIndex` on a refusal, and the commit rule of
`advanceCommit`, which looks at one index only.
-/

namespace QuorumLimiter

variable {σ ρ : Type}

section Requests

variable {s : Local σ ρ} {calls : List StoreOp}

theorem ends_termAt (index : Nat) :
    Ends (termAt index) calls s (fun term after => after = s ∧ term = s.store.termBefore index) := by
  unfold termAt Store.termBefore
  by_cases positive : index > 0
  · rw [if_pos positive, if_pos positive]
    apply ends_read
    cases s.store.entry index with
    | none => exact ⟨rfl, rfl⟩
    | some entry => exact ⟨rfl, rfl⟩
  · rw [if_neg positive, if_neg positive]
    exact ⟨rfl, rfl⟩

theorem ends_entriesFrom (next last : Nat) :
    Ends (entriesFrom next last) calls s (fun result after => after = s ∧
      result = .ok (if next ≤ last then s.store.entries next last else [])) := by
  unfold entriesFrom
  by_cases some : next ≤ last
  · rw [if_pos some, if_pos some]
    exact ⟨rfl, rfl⟩
  · rw [if_neg some, if_neg some]
    exact ⟨rfl, rfl⟩

theorem ends_replicateToPeer (peer : String) (leader : s.node.role = .leader) :
    Ends (replicateToPeer peer) calls s (fun _ after =>
      after = s.append peer (s.store.termBefore (s.node.nextFor peer - 1))) := by
  apply ends_get
  rw [if_neg (not_not.mpr leader)]
  apply ends_bind (ends_termAt _)
  rintro _ _ _ ⟨rfl, rfl⟩
  apply ends_bind (ends_entriesFrom _ _)
  rintro _ _ _ ⟨rfl, rfl⟩
  rfl

def OnlySends (s t : Local σ ρ) : Prop := t.node = s.node ∧ t.store = s.store

theorem ends_replicateEach (peers : List String) :
    Ends (replicateEach peers) calls s (fun _ after => OnlySends s after) := by
  induction peers generalizing s calls with
  | nil => exact ⟨rfl, rfl⟩
  | cons peer rest ih =>
      have sent : Ends (replicateToPeer peer) calls s (fun _ after => OnlySends s after) := by
        by_cases leader : s.node.role = .leader
        · apply ends_mono (ends_replicateToPeer peer leader)
          rintro _ _ rfl
          exact ⟨rfl, rfl⟩
        · apply ends_get
          rw [if_pos leader]
          exact ⟨rfl, rfl⟩
      apply ends_bind sent
      intro _ _ middle first
      apply ends_mono ih
      intro _ after second
      exact ⟨second.1.trans first.1, second.2.trans first.2⟩

theorem ends_replicateToAll :
    Ends replicateToAll calls s (fun _ after => OnlySends s after) := by
  apply ends_get
  dsimp only
  by_cases leader : s.node.role ≠ .leader
  · rw [if_pos leader]
    exact ⟨rfl, rfl⟩
  · rw [if_neg leader]
    exact ends_replicateEach _

theorem ends_lastIndexLoop (term index : Nat) :
    Ends (lastIndexLoop term index) calls s (fun found after =>
      after = s ∧ found = lastIndexIn s.store term index) := by
  induction index generalizing calls with
  | zero => exact ⟨rfl, rfl⟩
  | succ index ih =>
      apply ends_read
      unfold lastIndexIn
      cases s.store.entry (index + 1) with
      | none => exact ⟨rfl, rfl⟩
      | some entry =>
          dsimp only
          by_cases same : entry.term = term
          · rw [if_pos same, if_pos same]
            exact ⟨rfl, rfl⟩
          · rw [if_neg same, if_neg same]
            exact ih

theorem ends_backupNextIndex (peer : String) (resp : AppendEntriesResponse) :
    Ends (backupNextIndex peer resp) calls s (fun _ after =>
      after = s.onNode (setNextIndex peer (hintedNext s resp))) := by
  have lower : ∀ next, (if next < 1 then 1 else next) = max 1 next := by
    intro next
    split <;> omega
  have hinted : Ends (conflictNext resp) calls s (fun next after =>
      after = s ∧ max 1 next = hintedNext s resp) := by
    unfold conflictNext hintedNext
    by_cases short : resp.conflictTerm = 0
    · rw [if_pos short, if_pos short]
      exact ⟨rfl, rfl⟩
    · rw [if_neg short, if_neg short]
      apply ends_bind (ends_lastIndexLoop _ _)
      rintro _ _ _ ⟨rfl, rfl⟩
      split
      · exact ⟨rfl, rfl⟩
      · exact ⟨rfl, rfl⟩
  apply ends_bind hinted
  rintro next _ _ ⟨rfl, same⟩
  rw [← same, ← lower]
  rfl

end Requests

section Committing

variable {apply : Option (ApplyFunc σ ρ)} {s : Local σ ρ} {calls : List StoreOp}

def Local.mayCommit (s : Local σ ρ) : Prop :=
  s.node.commitIndex < s.node.majorityIndex ∧
    ∃ entry, s.store.entry s.node.majorityIndex = some entry ∧ entry.term = s.node.currentTerm

theorem ends_advanceCommit :
    Ends (advanceCommit apply) calls s (fun _ after =>
      s.mayCommit ∧ after.node.commitIndex = s.node.majorityIndex ∨
        ¬ s.mayCommit ∧ after.node.commitIndex = s.node.commitIndex) := by
  apply ends_get
  dsimp only
  by_cases reached : s.node.majorityIndex ≤ s.node.commitIndex
  · rw [if_pos reached]
    exact Or.inr ⟨fun may => absurd may.1 (by omega), rfl⟩
  · rw [if_neg reached]
    apply ends_read
    cases found : s.store.entry s.node.majorityIndex with
    | none =>
        refine Or.inr ⟨?_, rfl⟩
        rintro ⟨_, entry, present, _⟩
        rw [found] at present
        contradiction
    | some entry =>
        dsimp only
        by_cases older : entry.term ≠ s.node.currentTerm
        · rw [if_pos older]
          refine Or.inr ⟨?_, rfl⟩
          rintro ⟨_, other, present, same⟩
          rw [found] at present
          cases present
          exact older same
        · rw [if_neg older]
          apply ends_update
          apply ends_write
          apply ends_bind (ends_applyLoop _)
          intro _ _ applied unmoved
          apply ends_mono ends_replicateToAll
          intro _ after sends
          refine Or.inl ⟨⟨by omega, entry, found, not_not.mp older⟩, ?_⟩
          rw [sends.1, unmoved.commit]
          rfl

/-- What the leader knows each member to hold, itself by its own log. -/
def Node.heldBy (n : Node) (member : String) : Nat :=
  if member = n.id then n.lastLogIndex else n.matchIndex member

def Node.holders (n : Node) (index : Nat) : Finset String :=
  (n.id :: n.peers).toFinset.filter fun member => index ≤ n.heldBy member

/-- An index above the commit index, held by a quorum, with an entry of the current term. -/
def Local.Committable (s : Local σ ρ) (index : Nat) : Prop :=
  s.node.commitIndex < index ∧ s.node.quorum ≤ (s.node.holders index).card ∧
    ∃ entry, s.store.entry index = some entry ∧ entry.term = s.node.currentTerm

theorem quorum_holders (n : Node) (index : Nat) (distinct : (n.id :: n.peers).Nodup)
    (positive : 0 < n.quorum) (fits : n.quorum ≤ n.peers.length + 1) :
    n.quorum ≤ (n.holders index).card ↔ index ≤ n.majorityIndex := by
  have values : n.matches = (n.id :: n.peers).map n.heldBy := by
    have others : n.peers.map n.matchIndex = n.peers.map n.heldBy := by
      apply List.map_congr_left
      intro peer listed
      rw [Node.heldBy, if_neg]
      rintro rfl
      exact (List.nodup_cons.mp distinct).1 listed
    rw [Node.matches, others, List.map_cons, Node.heldBy, if_pos rfl]
  rw [Node.holders, Voting.card_reached _ _ _ distinct, ← values, Node.majorityIndex]
  apply Voting.descending_rank _ _ _ positive
  rwa [Node.matches, List.length_cons, List.length_map]

variable {log : List LogEntry}

theorem mayCommit_of_committable (stores : StoresLog s.store.log log)
    (ordered : log.Pairwise fun earlier later => earlier.term ≤ later.term)
    (current : ∀ entry ∈ log, entry.term ≤ s.node.currentTerm)
    (within : s.node.majorityIndex ≤ log.length)
    (counts : ∀ index, s.node.quorum ≤ (s.node.holders index).card ↔ index ≤ s.node.majorityIndex)
    {index : Nat} (eligible : s.Committable index) : s.mayCommit := by
  -- the majority index is eligible as soon as any index is: terms only grow along the log,
  -- so one of the current term stands at every index from the eligible one on
  obtain ⟨above, held, entry, found, term⟩ := eligible
  have reached := (counts index).mp held
  refine ⟨by omega, ?_⟩
  obtain ⟨low, rfl⟩ : ∃ low, index = low + 1 := ⟨index - 1, by omega⟩
  obtain ⟨high, top⟩ : ∃ high, s.node.majorityIndex = high + 1 :=
    ⟨s.node.majorityIndex - 1, by omega⟩
  rw [top] at reached within ⊢
  rw [storesLog_entry stores] at found
  have present : log[high]? = some log[high] := List.getElem?_eq_getElem within
  refine ⟨log[high], (storesLog_entry stores high).trans present, ?_⟩
  have atMost := current _ (List.mem_of_getElem? present)
  have atLeast := ordered_le ordered (by omega) found present
  omega

/-- The entry `advanceCommit` commits, if any, is the last one Raft's rule allows. -/
theorem advanceCommit_exact (apply : Option (ApplyFunc σ ρ)) (s : Local σ ρ) (cfg : Config)
    (log : List LogEntry) (distinct : cfg.peers.Nodup) (member : cfg.nodeID ∈ cfg.peers)
    (id : s.node.id = cfg.nodeID) (peers : s.node.peers = cfg.blank.peers)
    (quorum : s.node.quorum = cfg.blank.quorum) (stores : StoresLog s.store.log log)
    (cached : s.node.lastLogIndex = log.length)
    (ordered : log.Pairwise fun earlier later => earlier.term ≤ later.term)
    (current : ∀ entry ∈ log, entry.term ≤ s.node.currentTerm)
    (acknowledged : ∀ peer ∈ s.node.peers, s.node.matchIndex peer ≤ s.node.lastLogIndex) :
    ∃ made after, (advanceCommit apply).run Plan.smooth [] s = (some (), made, after) ∧
      ((∃ index, s.Committable index) →
        IsGreatest { index | s.Committable index } after.node.commitIndex) ∧
      ((¬ ∃ index, s.Committable index) → after.node.commitIndex = s.node.commitIndex) := by
  have permuted : (s.node.id :: s.node.peers).Perm cfg.peers := by
    rw [id, peers]
    exact Voting.perm_others cfg.peers cfg.nodeID distinct member
  have size : s.node.peers.length + 1 = cfg.peers.length := permuted.length_eq
  have half : s.node.quorum = cfg.peers.length / 2 + 1 := quorum
  have counts := fun index =>
    quorum_holders s.node index (permuted.nodup_iff.mpr distinct) (by omega) (by omega)
  have within : s.node.majorityIndex ≤ log.length := by
    rw [← cached]
    have held := (counts s.node.majorityIndex).mpr (Nat.le_refl _)
    have some : 0 < (s.node.holders s.node.majorityIndex).card := by omega
    obtain ⟨holder, inside⟩ := Finset.card_pos.mp some
    obtain ⟨listed, reached⟩ := Finset.mem_filter.mp inside
    rw [Node.heldBy] at reached
    by_cases own : holder = s.node.id
    · rwa [if_pos own] at reached
    · rw [if_neg own] at reached
      rw [List.mem_toFinset, List.mem_cons] at listed
      exact reached.trans (acknowledged holder (listed.resolve_left own))
  have ends : Ends (advanceCommit apply) [] s _ := ends_advanceCommit
  obtain ⟨_, made, after, run, facts⟩ := ends_run ends
  refine ⟨made, after, run, ?_, ?_⟩
  · rintro ⟨index, eligible⟩
    have may := mayCommit_of_committable stores ordered current within counts eligible
    rcases facts with ⟨_, moved⟩ | ⟨blocked, _⟩
    · rw [moved]
      refine ⟨⟨may.1, (counts _).mpr (Nat.le_refl _), may.2⟩, ?_⟩
      rintro other ⟨_, held, _⟩
      exact (counts other).mp held
    · exact absurd may blocked
  · intro nothing
    rcases facts with ⟨may, _⟩ | ⟨_, kept⟩
    · exact absurd ⟨_, may.1, (counts _).mpr (Nat.le_refl _), may.2⟩ nothing
    · exact kept

end Committing

def quintet : Config := ⟨"a", "quintet", ["a", "b", "c", "d", "e"]⟩

/-- Two of the four peers have acknowledged entry 3, and one of them entry 4. -/
def quintetLeader : Local Unit Unit where
  node := { quintet.blank with
    role := .leader
    currentTerm := 2
    lastLogIndex := 4
    lastLogTerm := 2
    matchIndex := fun peer => if peer = "b" then 3 else if peer = "d" then 4 else 0 }
  store := { Store.migrated () with
    currentTerm := 2
    log := Bucket.ofList (logSentinel :: growingLog) }
  calls := []
  proposals := []
  outcomes := []

theorem advanceCommit_exact_quintet :
    quintetLeader.Committable 2 ∧
    ∃ made after, (advanceCommit none).run Plan.smooth [] quintetLeader = (some (), made, after) ∧
      IsGreatest { index | quintetLeader.Committable index } after.node.commitIndex := by
  have stores : StoresLog quintetLeader.store.log growingLog := by
    refine ⟨rfl, ?_⟩
    intro position entry found
    match position with
    | 0 | 1 | 2 | 3 =>
        cases found
        rfl
    | _ + 4 => cases found
  have eligible : quintetLeader.Committable 2 :=
    ⟨by decide, by decide, ⟨2, 2, .noop, []⟩, by decide, rfl⟩
  obtain ⟨made, after, run, greatest, _⟩ :=
    advanceCommit_exact none quintetLeader quintet growingLog (by decide) (by decide) rfl rfl rfl
      stores rfl (by decide) (by decide) (by decide)
  exact ⟨eligible, made, after, run, greatest ⟨2, eligible⟩⟩

end QuorumLimiter
