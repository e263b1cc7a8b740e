import QuorumLimiter.Lib.Bucket

/-!
The durable half of a node: term and vote, checkpoints, and the replicated log,
kept in a bucket under the entries' own indexes. `app` stands for the
application buckets, which only an apply transaction writes.
-/

namespace QuorumLimiter

inductive EntryKind
  | sentinel
  | noop
  | command
  deriving DecidableEq, Repr

structure LogEntry where
  index : Nat
  term : Nat
  kind : EntryKind
  command : List UInt8
  deriving DecidableEq, Repr

/-- The entry a migration installs at index zero. -/
def logSentinel : LogEntry := ⟨0, 0, .sentinel, []⟩

structure Store (σ : Type) where
  currentTerm : Nat
  votedFor : String
  clusterID : String
  commitIndex : Nat
  lastApplied : Nat
  log : Bucket Nat LogEntry
  app : σ

namespace Store

variable {σ : Type}

def migrated (app : σ) : Store σ where
  currentTerm := 0
  votedFor := ""
  clusterID := ""
  commitIndex := 0
  lastApplied := 0
  log := Bucket.empty.put 0 logSentinel
  app := app

def setTermAndVote (store : Store σ) (term : Nat) (votedFor : String) : Store σ :=
  { store with currentTerm := term, votedFor := votedFor }

def setVotedFor (store : Store σ) (nodeID : String) : Store σ := { store with votedFor := nodeID }

def setClusterID (store : Store σ) (id : String) : Store σ := { store with clusterID := id }

def setCommitIndex (store : Store σ) (index : Nat) : Store σ := { store with commitIndex := index }

def setLastApplied (store : Store σ) (index : Nat) : Store σ := { store with lastApplied := index }

def putEntries (log : Bucket Nat LogEntry) (entries : List LogEntry) : Bucket Nat LogEntry :=
  entries.foldl (fun bucket entry => bucket.put entry.index entry) log

def appendEntries (store : Store σ) (entries : List LogEntry) : Store σ :=
  { store with log := putEntries store.log entries }

def entry (store : Store σ) (index : Nat) : Option LogEntry := store.log.get index

def entries (store : Store σ) (lo hi : Nat) : List LogEntry :=
  if hi < lo then []
  else ((store.log.seek lo).takeWhile fun pair => decide (pair.1 ≤ hi)).map Prod.snd

def firstIndex (store : Store σ) : Nat := store.log.firstKey.getD 0

def lastIndex (store : Store σ) : Nat := store.log.lastKey.getD 0

def truncateSuffixTx (log : Bucket Nat LogEntry) (start : Nat) : Bucket Nat LogEntry :=
  ((log.seek start).map Prod.fst).foldl Bucket.delete log

def truncateSuffix (store : Store σ) (start : Nat) : Store σ :=
  { store with log := truncateSuffixTx store.log (if start = 0 then 1 else start) }

def overwriteEntries (store : Store σ) (truncateFrom : Nat) (entries : List LogEntry) : Store σ :=
  { store with
    log := putEntries
      (if 1 ≤ truncateFrom then truncateSuffixTx store.log truncateFrom else store.log) entries }

end Store

/-- The bucket holds the sentinel followed by `entries`, each under its own index. -/
structure StoresLog (log : Bucket Nat LogEntry) (entries : List LogEntry) : Prop where
  stored : log = Bucket.ofList (logSentinel :: entries)
  indexed : ∀ position entry, entries[position]? = some entry → entry.index = position + 1

section Refinement

variable {σ : Type} {store : Store σ} {log : List LogEntry}

theorem storesLog_migrated (app : σ) : StoresLog (Store.migrated app).log [] :=
  ⟨rfl, by simp⟩

theorem storesLog_entry (stores : StoresLog store.log log) (index : Nat) :
    store.entry (index + 1) = log[index]? := by
  rw [Store.entry, stores.stored, Bucket.get_ofList, List.getElem?_cons_succ]

theorem storesLog_sentinel (stores : StoresLog store.log log) :
    store.entry 0 = some logSentinel := by
  rw [Store.entry, stores.stored, Bucket.get_ofList, List.getElem?_cons_zero]

theorem storesLog_lastIndex (stores : StoresLog store.log log) : store.lastIndex = log.length := by
  rw [Store.lastIndex, stores.stored, Bucket.lastKey_ofList]
  rfl

theorem storesLog_agree {other : Store σ} {rest : List LogEntry} (stores : StoresLog store.log log)
    (copies : StoresLog other.log rest) (count index : Nat)
    (same : log.take count = rest.take count) (bound : index ≤ count) :
    store.entry index = other.entry index := by
  cases index with
  | zero => rw [storesLog_sentinel stores, storesLog_sentinel copies]
  | succ index =>
      rw [storesLog_entry stores, storesLog_entry copies,
        ← List.getElem?_take_of_lt (l := log) bound, ← List.getElem?_take_of_lt (l := rest) bound,
        same]

theorem storesLog_unique {bucket : Bucket Nat LogEntry} {left right : List LogEntry}
    (stores : StoresLog bucket left) (again : StoresLog bucket right) : left = right := by
  apply List.ext_getElem?
  intro position
  have found := congrArg (Bucket.get · (position + 1)) (stores.stored.symm.trans again.stored)
  simpa using found

theorem storesLog_entries (stores : StoresLog store.log log) (lo hi : Nat) (positive : 1 ≤ lo) :
    store.entries lo hi = (log.drop (lo - 1)).take (hi + 1 - lo) := by
  rw [Store.entries]
  split
  · rename_i short
    rw [show hi + 1 - lo = 0 by omega, List.take_zero]
  · obtain ⟨below, rfl⟩ : ∃ below, lo = below + 1 := ⟨lo - 1, by omega⟩
    rw [Bucket.seek, stores.stored]
    simp only [Bucket.ofList]
    rw [Bucket.dropWhile_numbered, Bucket.takeWhile_numbered, Bucket.numbered_values,
      Nat.sub_zero, Nat.zero_max, List.drop_succ_cons, Nat.add_sub_cancel]

/-- Entries that carry the indexes after `count`. -/
def Consecutive (count : Nat) (entries : List LogEntry) : Prop :=
  ∀ position entry, entries[position]? = some entry → entry.index = count + position + 1

theorem consecutive_stored {bucket : Bucket Nat LogEntry} (stores : StoresLog bucket log) :
    Consecutive 0 log := by
  intro position entry found
  rw [Nat.zero_add]
  exact stores.indexed position entry found

theorem storesLog_put {bucket : Bucket Nat LogEntry} (stores : StoresLog bucket log)
    (entry : LogEntry) (next : entry.index = log.length + 1) :
    StoresLog (bucket.put entry.index entry) (log ++ [entry]) := by
  refine ⟨?_, ?_⟩
  · rw [stores.stored, next, ← List.cons_append, ← Bucket.put_ofList]
    rfl
  · intro position found present
    rcases Nat.lt_or_ge position log.length with inside | outside
    · rw [List.getElem?_append_left inside] at present
      exact stores.indexed position found present
    · rw [List.getElem?_append_right outside, List.getElem?_singleton] at present
      split at present
      · cases present
        omega
      · contradiction

theorem consecutive_nil (count : Nat) : Consecutive count [] := by
  rintro position entry ⟨⟩

theorem consecutive_cons (count : Nat) (first : LogEntry) (rest : List LogEntry) :
    Consecutive count (first :: rest) ↔ first.index = count + 1 ∧ Consecutive (count + 1) rest := by
  constructor
  · intro all
    refine ⟨all 0 first rfl, fun position entry found => ?_⟩
    have := all (position + 1) entry found
    omega
  · rintro ⟨head, tail⟩ position entry found
    cases position with
    | zero =>
        cases found
        exact head
    | succ position =>
        have := tail position entry found
        omega

theorem get_putEntries (entries : List LogEntry) (log : Bucket Nat LogEntry) (count : Nat)
    (consecutive : Consecutive count entries) (key : Nat) :
    (Store.putEntries log entries).get key =
      if count < key ∧ key ≤ count + entries.length then entries[key - count - 1]?
      else log.get key := by
  induction entries generalizing log count with
  | nil =>
      rw [if_neg (by simp)]
      rfl
  | cons first rest ih =>
      obtain ⟨head, tail⟩ := (consecutive_cons _ _ _).mp consecutive
      have unfolded : Store.putEntries log (first :: rest) =
          Store.putEntries (log.put first.index first) rest := rfl
      rw [unfolded, ih _ (count + 1) tail, Bucket.get_put, head, List.length_cons]
      by_cases next : key = count + 1
      · subst next
        rw [if_neg (by omega), if_pos rfl, if_pos (by omega)]
        simp
      · rw [if_neg next]
        by_cases inside : count < key ∧ key ≤ count + (rest.length + 1)
        · obtain ⟨gap, rfl⟩ : ∃ gap, key = count + 2 + gap := ⟨key - count - 2, by omega⟩
          rw [if_pos (by omega), if_pos inside, show count + 2 + gap - (count + 1) - 1 = gap by omega,
            show count + 2 + gap - count - 1 = gap + 1 by omega, List.getElem?_cons_succ]
        · rw [if_neg (by omega), if_neg inside]

theorem storesLog_putEntries {bucket : Bucket Nat LogEntry} (stores : StoresLog bucket log)
    (entries : List LogEntry) (consecutive : Consecutive log.length entries) :
    StoresLog (Store.putEntries bucket entries) (log ++ entries) := by
  induction entries generalizing bucket log with
  | nil => simpa [Store.putEntries] using stores
  | cons first rest ih =>
      obtain ⟨head, tail⟩ := (consecutive_cons _ _ _).mp consecutive
      have := ih (storesLog_put stores first head) (by simpa using tail)
      simpa [Store.putEntries] using this

theorem storesLog_truncate {bucket : Bucket Nat LogEntry} (stores : StoresLog bucket log)
    (start : Nat) : StoresLog (Store.truncateSuffixTx bucket (start + 1)) (log.take start) := by
  refine ⟨?_, ?_⟩
  · rw [Store.truncateSuffixTx, Bucket.foldl_delete_seek, stores.stored, Bucket.filter_ofList,
      List.take_succ_cons]
  · intro position entry found
    refine stores.indexed position entry ?_
    rw [List.getElem?_take] at found
    split at found
    · exact found
    · contradiction

end Refinement

end QuorumLimiter
