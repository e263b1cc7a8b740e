import QuorumLimiter.Lib.ReplicatedLog
import QuorumLimiter.Raft.Merging

/-!
Append requests cut from a leader's log, received by a node whose log matches it.
Where the node holds an entry of the ledger by term it holds everything below, so
a merge either finds all sent entries in place or makes the ledger, up to the last
sent entry, the node's log.
-/

namespace QuorumLimiter

open ReplicatedLog

/-- Where the logs have an entry of one term, they agree up to it. -/
def Matching (log ledger : List LogEntry) : Prop :=
  ∀ index held wrote, log[index]? = some held → ledger[index]? = some wrote →
    held.term = wrote.term → log.take (index + 1) = ledger.take (index + 1)

structure Slice (ledger : List LogEntry) (req : AppendEntriesRequest) : Prop where
  numbered : Consecutive 0 ledger
  previous : req.prevLogIndex ≤ ledger.length
  prevTerm : 0 < req.prevLogIndex →
    ∃ entry, ledger[req.prevLogIndex - 1]? = some entry ∧ entry.term = req.prevLogTerm
  entries : req.entries <+: ledger.drop req.prevLogIndex

theorem matching_take (ledger : List LogEntry) (count : Nat) : Matching (ledger.take count) ledger := by
  intro index held wrote found written same
  have inside := (List.getElem?_eq_some_iff.mp found).1
  rw [List.length_take] at inside
  rw [List.take_take, Nat.min_eq_left (by omega)]

section Cutting

variable {σ ρ : Type} {ledger log : List LogEntry} {s : Local σ ρ}

/-- What `replicateToPeer` sends is cut from the leader's log as it is then. -/
theorem slice_built (stores : StoresLog s.store.log log) (grows : log <+: ledger)
    (numbered : Consecutive 0 ledger) (cached : s.node.lastLogIndex = log.length) (peer : String)
    (next : s.node.nextIndex peer ≤ s.node.lastLogIndex + 1) :
    Slice ledger (s.node.appendRequest peer (s.store.termBefore (s.node.nextFor peer - 1))
      (if s.node.nextFor peer ≤ s.node.lastLogIndex then
        s.store.entries (s.node.nextFor peer) s.node.lastLogIndex else [])) := by
  have positive : 1 ≤ s.node.nextFor peer ∧ s.node.nextFor peer ≤ log.length + 1 := by
    unfold Node.nextFor
    split <;> omega
  have longer := grows.length_le
  refine ⟨numbered, ?_, ?_, ?_⟩
  · change s.node.nextFor peer - 1 ≤ ledger.length
    omega
  · intro above
    change 0 < s.node.nextFor peer - 1 at above
    change ∃ entry, ledger[s.node.nextFor peer - 1 - 1]? = some entry ∧
      entry.term = s.store.termBefore (s.node.nextFor peer - 1)
    obtain ⟨before, same⟩ : ∃ before, s.node.nextFor peer - 1 = before + 1 :=
      ⟨s.node.nextFor peer - 2, by omega⟩
    have found : log[before]? = some log[before] := List.getElem?_eq_getElem (by omega)
    rw [same, Nat.add_sub_cancel, Store.termBefore, if_pos (by omega), storesLog_entry stores, found]
    exact ⟨_, getElem?_of_grows _ _ _ _ grows found, rfl⟩
  · change (if s.node.nextFor peer ≤ s.node.lastLogIndex then
      s.store.entries (s.node.nextFor peer) s.node.lastLogIndex else []) <+:
        ledger.drop (s.node.nextFor peer - 1)
    split
    · rw [storesLog_entries stores _ _ positive.1]
      exact (List.take_prefix _ _).trans (grows.drop _)
    · exact List.nil_prefix

end Cutting

section Receiving

variable {σ : Type} {ledger log : List LogEntry} {req : AppendEntriesRequest} {store : Store σ}

theorem slice_entry (slice : Slice ledger req) (position : Nat) (sent : LogEntry)
    (present : req.entries[position]? = some sent) :
    ledger[req.prevLogIndex + position]? = some sent := by
  rw [← List.getElem?_drop]
  exact getElem?_of_grows _ _ _ _ slice.entries present

theorem slice_reach (slice : Slice ledger req) :
    req.prevLogIndex + req.entries.length ≤ ledger.length := by
  have length := slice.entries.length_le
  rw [List.length_drop] at length
  have := slice.previous
  omega

theorem slice_consecutive (slice : Slice ledger req) :
    Consecutive req.prevLogIndex req.entries := by
  intro position entry present
  have := slice.numbered _ _ (slice_entry slice position entry present)
  omega

theorem slice_agrees (slice : Slice ledger req) (stores : StoresLog store.log log)
    (matching : Matching log ledger)
    (previous : 0 < req.prevLogIndex → ∃ entry,
      store.entry req.prevLogIndex = some entry ∧ entry.term = req.prevLogTerm)
    (count : Nat) (bound : count ≤ req.entries.length)
    (held : ∀ position sent, position < count → req.entries[position]? = some sent →
      ∃ entry, store.entry (req.prevLogIndex + position + 1) = some entry ∧
        entry.term = sent.term) :
    log.take (req.prevLogIndex + count) = ledger.take (req.prevLogIndex + count) := by
  -- Matching at `prevLogIndex` and at the first `count` sent entries means agreeing with the
  -- ledger up to there.
  cases count with
  | zero =>
      rw [Nat.add_zero]
      rcases Nat.eq_zero_or_pos req.prevLogIndex with zero | positive
      · simp [zero]
      · obtain ⟨held, found, heldTerm⟩ := previous positive
        obtain ⟨wrote, written, wroteTerm⟩ := slice.prevTerm positive
        obtain ⟨before, same⟩ : ∃ before, req.prevLogIndex = before + 1 :=
          ⟨req.prevLogIndex - 1, by omega⟩
        rw [same] at found written ⊢
        rw [storesLog_entry stores] at found
        exact matching before held wrote found written (heldTerm.trans wroteTerm.symm)
  | succ count =>
      obtain ⟨sent, present⟩ : ∃ sent, req.entries[count]? = some sent :=
        ⟨_, List.getElem?_eq_getElem (by omega)⟩
      obtain ⟨entry, found, term⟩ := held count sent (by omega) present
      rw [storesLog_entry stores] at found
      exact matching _ entry sent found (slice_entry slice count sent present) term

theorem slice_merged {truncateFrom : Nat} {toAppend : List LogEntry} (slice : Slice ledger req)
    (stores : StoresLog store.log log) (matching : Matching log ledger)
    (previous : 0 < req.prevLogIndex → ∃ entry,
      store.entry req.prevLogIndex = some entry ∧ entry.term = req.prevLogTerm)
    (merged : reconcile store req.prevLogIndex req.entries = (truncateFrom, toAppend))
    (needed : toAppend ≠ []) :
    StoresLog (store.overwriteEntries truncateFrom toAppend).log
        (ledger.take (req.prevLogIndex + req.entries.length)) ∧
      log.take (req.prevLogIndex + req.entries.length) ≠
        ledger.take (req.prevLogIndex + req.entries.length) := by
  -- The merge makes the node's log the ledger up to the last sent entry, and did not before.
  rcases reconcile_cases store req.entries req.prevLogIndex with
    ⟨result, _⟩ | ⟨place, first, present, below, outcome⟩
  · rw [merged, Prod.mk.injEq] at result
    exact absurd result.2 needed
  have inside : place < req.entries.length := (List.getElem?_eq_some_iff.mp present).1
  have agrees := slice_agrees slice stores matching previous place (by omega) below
  have reach := slice_reach slice
  have long : req.prevLogIndex + place ≤ log.length := length_of_take _ _ _ (by omega) agrees
  have written := slice_entry slice place first present
  have append : toAppend = req.entries.drop place := by
    rcases outcome with ⟨_, result⟩ | ⟨_, result⟩ <;> rw [merged, Prod.mk.injEq] at result <;>
      exact result.2
  have whole : log.take (req.prevLogIndex + place) ++ toAppend =
      ledger.take (req.prevLogIndex + req.entries.length) := by
    have sent : req.entries = (ledger.drop req.prevLogIndex).take req.entries.length :=
      List.prefix_iff_eq_take.mp slice.entries
    rw [agrees, append, sent, List.drop_take, List.drop_drop, List.length_take, ← List.take_add]
    congr 1
    rw [List.length_drop]
    omega
  have consecutive : Consecutive (log.take (req.prevLogIndex + place)).length toAppend := by
    rw [append, List.length_take, Nat.min_eq_left long]
    exact consecutive_drop (slice_consecutive slice) place
  have differs : log[req.prevLogIndex + place]? ≠ some first →
      log.take (req.prevLogIndex + req.entries.length) ≠
        ledger.take (req.prevLogIndex + req.entries.length) := by
    intro other same
    apply other
    rw [getElem?_of_take _ _ _ _ (by omega) same]
    exact written
  rw [← whole]
  rw [← whole] at differs
  rcases outcome with ⟨missing, result⟩ | ⟨⟨existing, found, conflict⟩, result⟩
  · rw [merged, Prod.mk.injEq] at result
    rw [storesLog_entry stores] at missing
    have short := List.getElem?_eq_none_iff.mp missing
    have all : log.take (req.prevLogIndex + place) = log := List.take_of_length_le short
    refine ⟨?_, differs (by rw [missing]; simp)⟩
    rw [all] at consecutive ⊢
    simp only [Store.overwriteEntries, result.1]
    exact storesLog_putEntries stores toAppend consecutive
  · rw [merged, Prod.mk.injEq] at result
    rw [storesLog_entry stores] at found
    refine ⟨?_, differs ?_⟩
    · simp only [Store.overwriteEntries, result.1]
      rw [if_pos (by omega)]
      exact storesLog_putEntries (storesLog_truncate stores (req.prevLogIndex + place)) toAppend
        consecutive
    · rw [found]
      rintro ⟨⟩
      exact conflict rfl

end Receiving

end QuorumLimiter
