import QuorumLimiter.Storage.Encoding
import QuorumLimiter.Storage.RaftStore

/-!
The replicated log as it lies on disk: encoded entries under eight-byte keys.
`u64` keeps the order of indexes, so the disk log is the log of `Store` under
renamed keys, and both behave as the sequence of entries that list overwrite and
truncation give.
-/

namespace QuorumLimiter

/-- `json.Marshal` on log entries, whose numbers, texts and bytes it always
takes, and `json.Unmarshal`, which gives the entry back. -/
structure EntryCodec where
  encode : LogEntry → Bytes
  decode : Bytes → Except String LogEntry
  decode_encode : ∀ entry, decode (encode entry) = .ok entry

abbrev DiskLog := Bucket Bytes Bytes

namespace DiskLog

variable (codec : EntryCodec)

/-- The part of `migrateV1` about the log. -/
def migrateV1 (log : DiskLog) : DiskLog :=
  if (log.get (u64 0)).isNone then log.put (u64 0) (codec.encode logSentinel) else log

def migrated : DiskLog := migrateV1 codec Bucket.empty

def putEntries (log : DiskLog) (entries : List LogEntry) : DiskLog :=
  entries.foldl (fun bucket entry => bucket.put (u64 entry.index) (codec.encode entry)) log

def appendEntries (log : DiskLog) (entries : List LogEntry) : DiskLog :=
  if entries.length = 0 then log else log.putEntries codec entries

def decodeLogEntry (raw : Bytes) : Except String LogEntry :=
  match codec.decode raw with
  | .error error => .error ("storage: decode log entry: " ++ error)
  | .ok entry => .ok entry

def entry (log : DiskLog) (index : Nat) : Except String (Option LogEntry) :=
  match log.get (u64 index) with
  | none => .ok none
  | some raw =>
      match decodeLogEntry codec raw with
      | .error error => .error error
      | .ok entry => .ok (some entry)

/-- The cursor loop of `Entries`, which stops at the first key past `hi`. -/
def readEntries (hi : Nat) : List (Bytes × Bytes) → Except String (List LogEntry)
  | [] => .ok []
  | (key, raw) :: rest =>
      if parseU64 key > hi then .ok []
      else
        match decodeLogEntry codec raw with
        | .error error => .error error
        | .ok entry =>
            match readEntries hi rest with
            | .error error => .error error
            | .ok more => .ok (entry :: more)

def entries (log : DiskLog) (lo hi : Nat) : Except String (List LogEntry) :=
  if hi < lo then .ok [] else readEntries codec hi (log.seek (u64 lo))

/-- A cursor over an empty bucket returns no key, which parses as 0. -/
def firstIndex (log : DiskLog) : Nat := parseU64 (log.firstKey.getD [])

def lastIndex (log : DiskLog) : Nat := parseU64 (log.lastKey.getD [])

def truncateSuffixTx (log : DiskLog) (start : Nat) : DiskLog :=
  ((log.seek (u64 start)).map Prod.fst).foldl Bucket.delete log

def truncateSuffix (log : DiskLog) (start : Nat) : DiskLog :=
  log.truncateSuffixTx (if start = 0 then 1 else start)

def overwriteEntries (log : DiskLog) (truncateFrom : Nat) (entries : List LogEntry) : DiskLog :=
  putEntries codec (if 1 ≤ truncateFrom then log.truncateSuffixTx truncateFrom else log) entries

end DiskLog

section Copying

def words : Set Nat := {value | value < 2 ^ 64}

theorem u64_strictMono : StrictMonoOn u64 words := by
  intro left first right second below
  exact (u64_lt_iff first second).mpr below

theorem u64_injective {left right : Nat} (first : left < 2 ^ 64) (second : right < 2 ^ 64)
    (same : u64 left = u64 right) : left = right := u64_strictMono.injOn first second same

/-- The disk holds the entries of `log` under the keys of their indexes. -/
abbrev Copies (codec : EntryCodec) (log : Bucket Nat LogEntry) (disk : DiskLog) : Prop :=
  Bucket.Renames u64 codec.encode words log disk

variable {codec : EntryCodec} {log : Bucket Nat LogEntry} {disk : DiskLog}

theorem copies_migrated : Copies codec (Bucket.empty.put 0 logSentinel) (DiskLog.migrated codec) :=
  Bucket.renames_put u64_strictMono Bucket.renames_empty (by simp [words]) logSentinel

theorem copies_putEntries (entries : List LogEntry) (log : Bucket Nat LogEntry) (disk : DiskLog)
    (copies : Copies codec log disk) (fits : ∀ entry ∈ entries, entry.index < 2 ^ 64) :
    Copies codec (Store.putEntries log entries) (disk.putEntries codec entries) := by
  induction entries generalizing log disk with
  | nil => exact copies
  | cons first rest ih =>
      exact ih _ _ (Bucket.renames_put u64_strictMono copies (fits first (by simp)) first)
        fun entry member => fits entry (by simp [member])

theorem copies_truncate (copies : Copies codec log disk) {start : Nat} (fits : start < 2 ^ 64) :
    Copies codec (Store.truncateSuffixTx log start) (disk.truncateSuffixTx start) := by
  have visited : (disk.seek (u64 start)).map Prod.fst =
      ((log.seek start).map Prod.fst).map u64 := by
    rw [Bucket.renames_seek u64_strictMono copies fits, List.map_map, List.map_map]
    rfl
  rw [Store.truncateSuffixTx, DiskLog.truncateSuffixTx, visited]
  apply Bucket.renames_foldl_delete u64_strictMono _ _ _ copies
  intro key member
  obtain ⟨pair, sought, rfl⟩ := List.mem_map.mp member
  exact copies.keys pair ((Bucket.mem_seek _ _ _).mp sought).1

theorem decodeLogEntry_encoded (entry : LogEntry) :
    DiskLog.decodeLogEntry codec (codec.encode entry) = .ok entry := by
  rw [DiskLog.decodeLogEntry, codec.decode_encode]

theorem copies_entry (copies : Copies codec log disk) {index : Nat} (fits : index < 2 ^ 64) :
    disk.entry codec index = .ok (log.get index) := by
  rw [DiskLog.entry, Bucket.renames_get u64_strictMono copies fits]
  cases log.get index with
  | none => rfl
  | some entry =>
      rw [Option.map_some]
      simp only [decodeLogEntry_encoded]

theorem readEntries_copied (hi : Nat) (pairs : List (Nat × LogEntry))
    (fits : ∀ pair ∈ pairs, pair.1 < 2 ^ 64) :
    DiskLog.readEntries codec hi (pairs.map (Prod.map u64 codec.encode)) =
      .ok ((pairs.takeWhile fun pair => decide (pair.1 ≤ hi)).map Prod.snd) := by
  induction pairs with
  | nil => rfl
  | cons first rest ih =>
      rw [List.map_cons, DiskLog.readEntries, Prod.map_fst, Prod.map_snd,
        parseU64_u64 (fits first (by simp)), decodeLogEntry_encoded,
        ih fun pair member => fits pair (by simp [member])]
      by_cases inside : first.1 ≤ hi
      · rw [if_neg (by omega), List.takeWhile_cons_of_pos (by simpa using inside), List.map_cons]
      · rw [if_pos (by omega), List.takeWhile_cons_of_neg (by simpa using inside), List.map_nil]

theorem copies_seek (copies : Copies codec log disk) {lo : Nat} (hi : Nat) (fits : lo < 2 ^ 64) :
    DiskLog.readEntries codec hi (disk.seek (u64 lo)) =
      .ok (((log.seek lo).takeWhile fun pair => decide (pair.1 ≤ hi)).map Prod.snd) := by
  rw [Bucket.renames_seek u64_strictMono copies fits]
  apply readEntries_copied
  intro pair sought
  exact copies.keys pair ((Bucket.mem_seek _ _ _).mp sought).1

end Copying

inductive LogOp
  | appendEntries (entries : List LogEntry)
  | overwriteEntries (truncateFrom : Nat) (entries : List LogEntry)
  | truncateSuffix (start : Nat)
  deriving DecidableEq, Repr

namespace LogOp

def onDisk (codec : EntryCodec) : LogOp → DiskLog → DiskLog
  | .appendEntries entries, log => log.appendEntries codec entries
  | .overwriteEntries truncateFrom entries, log => log.overwriteEntries codec truncateFrom entries
  | .truncateSuffix start, log => log.truncateSuffix start

def onStore {σ : Type} : LogOp → Store σ → Store σ
  | .appendEntries entries, store => store.appendEntries entries
  | .overwriteEntries truncateFrom entries, store => store.overwriteEntries truncateFrom entries
  | .truncateSuffix start, store => store.truncateSuffix start

/-- The entries take the places from the first one's index on; what lies before
and after them stays. -/
def splice (seq entries : List LogEntry) : List LogEntry :=
  match entries with
  | [] => seq
  | first :: _ => seq.take first.index ++ entries ++ seq.drop (first.index + entries.length)

/-- What the call does to the sequence of entries 0, 1, 2, ... -/
def onSequence : LogOp → List LogEntry → List LogEntry
  | .appendEntries entries, seq => splice seq entries
  | .overwriteEntries truncateFrom entries, seq =>
      if 1 ≤ truncateFrom then seq.take truncateFrom ++ entries else splice seq entries
  | .truncateSuffix start, seq => seq.take (max 1 start)

/-- A batch with consecutive indexes that starts inside the sequence or right after
it, above the sentinel. -/
def Batch (seq entries : List LogEntry) : Prop :=
  (∃ start, 1 ≤ start ∧ start ≤ seq.length ∧ Consecutive (start - 1) entries) ∧
    ∀ entry ∈ entries, entry.index < 2 ^ 64

def Allowed : LogOp → List LogEntry → Prop
  | .appendEntries entries, seq => Batch seq entries
  | .overwriteEntries truncateFrom entries, seq =>
      if 1 ≤ truncateFrom then
        truncateFrom ≤ seq.length - 1 ∧ Consecutive (truncateFrom - 1) entries ∧
          ∀ entry ∈ entries, entry.index < 2 ^ 64
      else Batch seq entries
  | .truncateSuffix start, _ => start < 2 ^ 64

def runDisk (codec : EntryCodec) (ops : List LogOp) (log : DiskLog) : DiskLog :=
  ops.foldl (fun log op => op.onDisk codec log) log

def runSequence (ops : List LogOp) (seq : List LogEntry) : List LogEntry :=
  ops.foldl (fun seq op => op.onSequence seq) seq

def AllAllowed : List LogOp → List LogEntry → Prop
  | [], _ => True
  | op :: rest, seq => op.Allowed seq ∧ AllAllowed rest (op.onSequence seq)

end LogOp

/-- Entries 0, 1, 2, ... under their own indexes, the first one the sentinel. -/
structure Contiguous (seq : List LogEntry) : Prop where
  sentinel : seq[0]? = some logSentinel
  numbered : ∀ index (entry : LogEntry), seq[index]? = some entry → entry.index = index
  fits : seq.length ≤ 2 ^ 64

/-- Every read of the disk log is the read of the sequence. -/
structure BehavesAs (codec : EntryCodec) (disk : DiskLog) (seq : List LogEntry) : Prop where
  entry : ∀ index, index < 2 ^ 64 → disk.entry codec index = .ok seq[index]?
  entries : ∀ lo hi, lo < 2 ^ 64 → hi < 2 ^ 64 →
    disk.entries codec lo hi = .ok (if hi < lo then [] else (seq.drop lo).take (hi + 1 - lo))
  firstIndex : disk.firstIndex = 0
  lastIndex : disk.lastIndex = seq.length - 1

section Splicing

variable {seq entries : List LogEntry} {start : Nat}

theorem getElem?_spliced (seq entries : List LogEntry) (key : Nat) (inside : start ≤ seq.length) :
    (seq.take start ++ entries ++ seq.drop (start + entries.length))[key]? =
      if start ≤ key ∧ key < start + entries.length then entries[key - start]? else seq[key]? := by
  have front : (seq.take start).length = start := by
    rw [List.length_take]
    omega
  by_cases before : key < start
  · rw [if_neg (by omega), List.append_assoc, List.getElem?_append_left (by omega),
      List.getElem?_take_of_lt before]
  · rw [List.append_assoc, List.getElem?_append_right (by omega), front]
    by_cases within : key < start + entries.length
    · rw [if_pos (by omega), List.getElem?_append_left (by omega)]
    · rw [if_neg (by omega), List.getElem?_append_right (by omega), List.getElem?_drop]
      congr 1
      omega

theorem splice_eq (inside : 1 ≤ start ∧ start ≤ seq.length)
    (consecutive : Consecutive (start - 1) entries) :
    LogOp.splice seq entries = seq.take start ++ entries ++ seq.drop (start + entries.length) := by
  cases entries with
  | nil => simp [LogOp.splice]
  | cons first rest =>
      have head := ((consecutive_cons _ _ _).mp consecutive).1
      rw [LogOp.splice, show first.index = start by omega]

theorem putEntries_ofList (inside : 1 ≤ start ∧ start ≤ seq.length)
    (consecutive : Consecutive (start - 1) entries) :
    Store.putEntries (Bucket.ofList seq) entries = Bucket.ofList (LogOp.splice seq entries) := by
  apply Bucket.ext_get
  intro key
  rw [get_putEntries entries _ _ consecutive, Bucket.get_ofList, Bucket.get_ofList,
    splice_eq inside consecutive, getElem?_spliced seq entries key inside.2]
  by_cases within : start ≤ key ∧ key < start + entries.length
  · rw [if_pos (by omega), if_pos within]
    congr 1
    omega
  · rw [if_neg (by omega), if_neg within]

theorem contiguous_take (contiguous : Contiguous seq) (positive : 1 ≤ start) :
    Contiguous (seq.take start) := by
  constructor
  · rw [List.getElem?_take_of_lt (by omega)]
    exact contiguous.sentinel
  · intro index entry found
    rw [List.getElem?_take] at found
    split at found
    · exact contiguous.numbered index entry found
    · contradiction
  · have := contiguous.fits
    rw [List.length_take]
    omega

theorem contiguous_splice (contiguous : Contiguous seq) (inside : 1 ≤ start ∧ start ≤ seq.length)
    (consecutive : Consecutive (start - 1) entries)
    (words : ∀ entry ∈ entries, entry.index < 2 ^ 64) : Contiguous (LogOp.splice seq entries) := by
  have lookup := fun key => getElem?_spliced seq entries key inside.2
  rw [splice_eq inside consecutive]
  constructor
  · rw [lookup, if_neg (by omega)]
    exact contiguous.sentinel
  · intro index entry found
    rw [lookup] at found
    by_cases within : start ≤ index ∧ index < start + entries.length
    · rw [if_pos within] at found
      have numbered := consecutive _ entry found
      omega
    · rw [if_neg within] at found
      exact contiguous.numbered index entry found
  · have old := contiguous.fits
    simp only [List.length_append, List.length_take, List.length_drop]
    rcases List.eq_nil_or_concat entries with rfl | ⟨front, last, rfl⟩
    · rw [List.length_nil]
      omega
    · -- The last entry's own index bounds how far the batch reaches.
      have numbered := consecutive front.length last (by simp)
      have bound := words last (by simp)
      rw [List.length_concat]
      omega

end Splicing

section Refinement

variable {σ : Type} {codec : EntryCodec} {store : Store σ} {disk : DiskLog} {seq : List LogEntry}
  {op : LogOp}

theorem onDisk_copies (copies : Copies codec store.log disk) (contiguous : Contiguous seq)
    (allowed : op.Allowed seq) : Copies codec (op.onStore store).log (op.onDisk codec disk) := by
  cases op with
  | appendEntries entries =>
      rw [LogOp.onDisk, DiskLog.appendEntries]
      cases entries with
      | nil => exact copies
      | cons first rest => exact copies_putEntries _ _ _ copies allowed.2
  | overwriteEntries truncateFrom entries =>
      simp only [LogOp.Allowed] at allowed
      simp only [LogOp.onDisk, LogOp.onStore, Store.overwriteEntries, DiskLog.overwriteEntries]
      by_cases cut : 1 ≤ truncateFrom
      · rw [if_pos cut] at allowed ⊢
        rw [if_pos cut]
        have bound := contiguous.fits
        exact copies_putEntries _ _ _ (copies_truncate copies (by omega)) allowed.2.2
      · rw [if_neg cut] at allowed ⊢
        rw [if_neg cut]
        exact copies_putEntries _ _ _ copies allowed.2
  | truncateSuffix start =>
      have bound : start < 2 ^ 64 := allowed
      exact copies_truncate copies (by split <;> omega)

theorem onStore_sequence (stored : store.log = Bucket.ofList seq) (contiguous : Contiguous seq)
    (allowed : op.Allowed seq) :
    (op.onStore store).log = Bucket.ofList (op.onSequence seq) ∧ Contiguous (op.onSequence seq) := by
  have nonempty := (List.getElem?_eq_some_iff.mp contiguous.sentinel).1
  have truncated : ∀ start, 1 ≤ start →
      Store.truncateSuffixTx store.log start = Bucket.ofList (seq.take start) := by
    intro start positive
    rw [Store.truncateSuffixTx, Bucket.foldl_delete_seek, stored, Bucket.filter_ofList]
  have spliced : ∀ entries, LogOp.Batch seq entries →
      Store.putEntries store.log entries = Bucket.ofList (LogOp.splice seq entries) ∧
        Contiguous (LogOp.splice seq entries) := by
    rintro entries ⟨⟨start, positive, inside, consecutive⟩, words⟩
    rw [stored]
    exact ⟨putEntries_ofList ⟨positive, inside⟩ consecutive,
      contiguous_splice contiguous ⟨positive, inside⟩ consecutive words⟩
  cases op with
  | appendEntries entries => exact spliced entries allowed
  | overwriteEntries truncateFrom entries =>
      simp only [LogOp.Allowed] at allowed
      simp only [LogOp.onStore, LogOp.onSequence, Store.overwriteEntries]
      by_cases cut : 1 ≤ truncateFrom
      · rw [if_pos cut] at allowed
        obtain ⟨inside, consecutive, words⟩ := allowed
        have length : (seq.take truncateFrom).length = truncateFrom := by
          rw [List.length_take]
          omega
        have reach : 1 ≤ truncateFrom ∧ truncateFrom ≤ (seq.take truncateFrom).length := by omega
        have same : LogOp.splice (seq.take truncateFrom) entries =
            seq.take truncateFrom ++ entries := by
          rw [splice_eq reach consecutive, List.take_take, Nat.min_self,
            List.drop_eq_nil_of_le (by omega), List.append_nil]
        rw [if_pos cut, if_pos cut, truncated truncateFrom cut, ← same]
        exact ⟨putEntries_ofList reach consecutive,
          contiguous_splice (contiguous_take contiguous cut) reach consecutive words⟩
      · rw [if_neg cut] at allowed
        rw [if_neg cut, if_neg cut]
        exact spliced entries allowed
  | truncateSuffix start =>
      have lower : (if start = 0 then 1 else start) = max 1 start := by
        split <;> omega
      simp only [LogOp.onStore, LogOp.onSequence, Store.truncateSuffix, lower]
      exact ⟨truncated _ (by omega), contiguous_take contiguous (by omega)⟩

theorem run_refines (ops : List LogOp) (store : Store σ) (disk : DiskLog) (seq : List LogEntry)
    (copies : Copies codec store.log disk) (stored : store.log = Bucket.ofList seq)
    (contiguous : Contiguous seq) (allowed : LogOp.AllAllowed ops seq) :
    Copies codec (Bucket.ofList (LogOp.runSequence ops seq)) (LogOp.runDisk codec ops disk) ∧
      Contiguous (LogOp.runSequence ops seq) := by
  -- One call keeps the disk a copy of the store's log and that log the sequence.
  induction ops generalizing store disk seq with
  | nil => exact ⟨stored ▸ copies, contiguous⟩
  | cons op rest ih =>
      obtain ⟨sequence, kept⟩ := onStore_sequence stored contiguous allowed.1
      exact ih (op.onStore store) _ _ (onDisk_copies copies contiguous allowed.1) sequence kept
        allowed.2

theorem firstKey_ofList (first : LogEntry) (rest : List LogEntry) :
    (Bucket.ofList (first :: rest)).firstKey = some 0 := rfl

theorem copies_behaves (copies : Copies codec (Bucket.ofList seq) disk)
    (contiguous : Contiguous seq) : BehavesAs codec disk seq := by
  have bound := contiguous.fits
  obtain ⟨first, rest, rfl⟩ : ∃ first rest, seq = first :: rest := by
    cases seq with
    | nil => cases contiguous.sentinel
    | cons first rest => exact ⟨first, rest, rfl⟩
  rw [List.length_cons] at bound
  constructor
  · intro index fits
    rw [copies_entry copies fits, Bucket.get_ofList]
  · intro lo hi loFits hiFits
    rw [DiskLog.entries]
    by_cases empty : hi < lo
    · rw [if_pos empty, if_pos empty]
    · rw [if_neg empty, if_neg empty, copies_seek copies hi loFits, Bucket.seek]
      simp only [Bucket.ofList]
      rw [Bucket.dropWhile_numbered, Bucket.takeWhile_numbered, Bucket.numbered_values,
        Nat.sub_zero, Nat.zero_max]
  · rw [DiskLog.firstIndex, Bucket.renames_firstKey copies, firstKey_ofList]
    exact parseU64_u64 (by omega)
  · rw [DiskLog.lastIndex, Bucket.renames_lastKey copies, Bucket.lastKey_ofList, List.length_cons]
    exact parseU64_u64 (by omega)

/-- Under any allowed calls the disk log of a migrated store reads as the sequence
the calls describe, which stays contiguous and keeps its sentinel; the keys of
indexes are injective, invertible and in order. -/
theorem diskLog_refines_sequence (codec : EntryCodec) (ops : List LogOp)
    (allowed : LogOp.AllAllowed ops [logSentinel]) :
    BehavesAs codec (LogOp.runDisk codec ops (DiskLog.migrated codec))
        (LogOp.runSequence ops [logSentinel]) ∧
      Contiguous (LogOp.runSequence ops [logSentinel]) ∧
      (∀ value, value < 2 ^ 64 → parseU64 (u64 value) = value) ∧
      (∀ left right, left < 2 ^ 64 → right < 2 ^ 64 → u64 left = u64 right → left = right) ∧
      ∀ left right, left < 2 ^ 64 → right < 2 ^ 64 → (u64 left < u64 right ↔ left < right) := by
  have start : Contiguous [logSentinel] := by
    constructor
    · rfl
    · intro index entry found
      cases index with
      | zero =>
          cases found
          rfl
      | succ index => cases found
    · simp
  obtain ⟨copies, contiguous⟩ := run_refines ops (Store.migrated ()) (DiskLog.migrated codec)
    [logSentinel] copies_migrated rfl start allowed
  exact ⟨copies_behaves copies contiguous, contiguous, fun _ => parseU64_u64,
    fun _ _ => u64_injective, fun _ _ => u64_lt_iff⟩

end Refinement

section Marks

def marked (value : Nat) (rest : Bytes) : Bytes := List.replicate value 1 ++ 0 :: rest

def readMarked (bytes : Bytes) : Nat × Bytes :=
  ((bytes.takeWhile (· = 1)).length, (bytes.dropWhile (· = 1)).drop 1)

theorem readMarked_marked (value : Nat) (rest : Bytes) :
    readMarked (marked value rest) = (value, rest) := by
  induction value with
  | zero => rfl
  | succ value ih =>
      simp only [readMarked, marked, List.replicate_succ, List.cons_append, Prod.mk.injEq] at ih ⊢
      rw [List.takeWhile_cons_of_pos (by decide), List.dropWhile_cons_of_pos (by decide),
        List.length_cons, ih.1]
      exact ⟨rfl, ih.2⟩

def kindByte : EntryKind → UInt8
  | .sentinel => 0
  | .noop => 1
  | .command => 2

def readKind (byte : UInt8) : EntryKind :=
  if byte = 0 then .sentinel else if byte = 1 then .noop else .command

def markedCodec : EntryCodec where
  encode entry := marked entry.index (marked entry.term (kindByte entry.kind :: entry.command))
  decode bytes :=
    match (readMarked (readMarked bytes).2).2 with
    | [] => .error "unexpected end of entry"
    | kind :: command =>
        .ok ⟨(readMarked bytes).1, (readMarked (readMarked bytes).2).1, readKind kind, command⟩
  decode_encode entry := by
    obtain ⟨index, term, kind, command⟩ := entry
    simp only [readMarked_marked]
    cases kind <;> rfl

theorem diskLog_repaired :
    let ops := [LogOp.appendEntries [⟨1, 1, .noop, []⟩, ⟨2, 1, .command, [7]⟩, ⟨3, 1, .command, [8]⟩],
      .overwriteEntries 2 [⟨2, 2, .noop, []⟩], .truncateSuffix 0, .appendEntries [⟨1, 3, .noop, []⟩]]
    LogOp.AllAllowed ops [logSentinel] ∧
      (LogOp.runDisk markedCodec ops (DiskLog.migrated markedCodec)).lastIndex = 1 := by
  have allowed : LogOp.AllAllowed
      [.appendEntries [⟨1, 1, .noop, []⟩, ⟨2, 1, .command, [7]⟩, ⟨3, 1, .command, [8]⟩],
        .overwriteEntries 2 [⟨2, 2, .noop, []⟩], .truncateSuffix 0,
        .appendEntries [⟨1, 3, .noop, []⟩]] [logSentinel] := by
    refine ⟨⟨⟨1, by decide, by decide, ?_⟩, by simp⟩, ⟨by decide, ?_, by simp⟩, ?_,
      ⟨⟨1, by decide, by decide, ?_⟩, by simp⟩, trivial⟩
    all_goals simp [consecutive_cons, consecutive_nil, LogOp.Allowed]
  exact ⟨allowed, (diskLog_refines_sequence markedCodec _ allowed).1.lastIndex⟩

end Marks

end QuorumLimiter
