import QuorumLimiter.Raft.Merging
import QuorumLimiter.Raft.Tracing

/-!
The receiver of append requests when no store call fails: what each part of
`handleAppendEntries` returns and leaves behind, and that together they are the
merge rule for logs with consecutive indexes.
-/

namespace QuorumLimiter

variable {σ ρ α β : Type}

section Smooth

variable {apply : Option (ApplyFunc σ ρ)} {s : Local σ ρ} {calls : List StoreOp}

/-- A run of the handler with every store call passing ends so. -/
def Ends (handler : Handler σ ρ α) (calls : List StoreOp) (s : Local σ ρ)
    (post : α → Local σ ρ → Prop) : Prop :=
  handler.wp Plan.smooth (fun value _ after => post value after) (fun _ => False) calls s

theorem ends_bind {first : Handler σ ρ α} {next : α → Handler σ ρ β} {middle : α → Local σ ρ → Prop}
    {post : β → Local σ ρ → Prop} (begun : Ends first calls s middle)
    (rest : ∀ value calls after, middle value after → Ends (next value) calls after post) :
    Ends (first >>= next) calls s post := by
  rw [Ends, Proc.wp_bind]
  apply Proc.wp_mono _ _ _ _ _ _ _ _ begun
  · exact fun value calls after holds => rest value calls after holds
  · exact fun _ crashed => crashed

theorem ends_get {next : Local σ ρ → Handler σ ρ β} {post : β → Local σ ρ → Prop}
    (rest : Ends (next s) calls s post) : Ends (Proc.get >>= next) calls s post := rest

theorem ends_update {update : Node → Node} {next : Unit → Handler σ ρ β}
    {post : β → Local σ ρ → Prop} (rest : Ends (next ()) calls (s.onNode update) post) :
    Ends (updateNode update >>= next) calls s post := rest

theorem ends_read {op : StoreOp} {look : Store σ → α} {next : Except CallError α → Handler σ ρ β}
    {post : β → Local σ ρ → Prop}
    (rest : Ends (next (.ok (look s.store))) (op :: calls) s post) :
    Ends (readStore op look >>= next) calls s post := rest

theorem ends_write {op : StoreOp} {update : Store σ → Store σ}
    {next : Except CallError Unit → Handler σ ρ β} {post : β → Local σ ρ → Prop}
    (rest : Ends (next (.ok ())) (op :: calls) (s.onStore update) post) :
    Ends (writeStore op update >>= next) calls s post := rest

theorem ends_mono {handler : Handler σ ρ α} {strong weak : α → Local σ ρ → Prop}
    (holds : Ends handler calls s strong)
    (weaken : ∀ value after, strong value after → weak value after) : Ends handler calls s weak := by
  apply Proc.wp_mono _ _ _ _ _ _ _ _ holds
  · exact fun value _ after => weaken value after
  · exact fun _ crashed => crashed

theorem ends_run {handler : Handler σ ρ α} {post : α → Local σ ρ → Prop}
    (ends : Ends handler calls s post) :
    ∃ value made after, handler.run Plan.smooth calls s = (some value, made, after) ∧
      post value after := by
  simp only [Ends, Proc.wp] at ends
  split at ends
  · rename_i value made after run
    exact ⟨value, made, after, run, ends⟩
  · exact absurd ends id

structure Unmoved (s t : Local σ ρ) : Prop where
  term : t.node.currentTerm = s.node.currentTerm
  cluster : t.node.clusterID = s.node.clusterID
  commit : t.node.commitIndex = s.node.commitIndex
  tip : t.node.lastLogIndex = s.node.lastLogIndex
  log : t.store.log = s.store.log

theorem unmoved_refl (s : Local σ ρ) : Unmoved s s := ⟨rfl, rfl, rfl, rfl, rfl⟩

theorem unmoved_trans {first second third : Local σ ρ} (left : Unmoved first second)
    (right : Unmoved second third) : Unmoved first third :=
  ⟨right.term.trans left.term, right.cluster.trans left.cluster, right.commit.trans left.commit,
    right.tip.trans left.tip, right.log.trans left.log⟩

theorem unmoved_applied {index term : Nat} {entry : LogEntry} {result : Option ρ}
    {after : Local σ ρ} (applied : applyStep apply index term entry s = .ok (result, after)) :
    Unmoved s (after.deliver index result) := by
  obtain ⟨lastApplied, app, rfl⟩ := applyStep_facts applied
  unfold Local.deliver
  split <;> exact ⟨rfl, rfl, rfl, rfl, rfl⟩

theorem ends_applyEntry (index term : Nat) (entry : LogEntry)
    {next : Except CallError (Option ρ) → Handler σ ρ β} {post : β → Local σ ρ → Prop}
    (passed : ∀ calls result after, applyStep apply index term entry s = .ok (result, after) →
      Ends (next (.ok result)) calls after post)
    (failed : ∀ calls, Ends (next (.error .failed)) calls s post) :
    Ends (applyEntry apply index term entry >>= next) calls s post := by
  unfold applyEntry
  cases apply with
  | none => exact passed _ none _ rfl
  | some f =>
      rw [Ends, Proc.wp_bind]
      exact Proc.wp_perform _ _ calls s .apply _ _ (fun _ result after => passed _ result after)
        (fun _ _ => failed _) (by rintro ⟨⟩) (by rintro ⟨⟩)

theorem ends_applyLoop (rounds : Nat) :
    Ends (applyLoop apply rounds) calls s (fun _ after => Unmoved s after) := by
  induction rounds generalizing s calls with
  | zero => exact unmoved_refl s
  | succ rounds ih =>
      apply ends_get
      apply ends_read
      cases found : s.store.entry (s.node.lastApplied + 1) with
      | none => exact unmoved_refl s
      | some entry =>
          apply ends_applyEntry
          · intro calls result after applied
            exact ends_mono ih fun _ final same => unmoved_trans (unmoved_applied applied) same
          · exact fun _ => unmoved_refl s

/-- What accepting a request whose commit index counts up to `bound` does. -/
structure Accepts (s t : Local σ ρ) (bound : Nat) : Prop where
  term : t.node.currentTerm = s.node.currentTerm
  cluster : t.node.clusterID = s.node.clusterID
  tip : t.node.lastLogIndex = s.node.lastLogIndex
  log : t.store.log = s.store.log
  commit : t.node.commitIndex = max s.node.commitIndex bound
  idle : bound ≤ s.node.commitIndex → t = s

theorem ends_acceptEntries (req : AppendEntriesRequest) (resp : AppendEntriesResponse) :
    Ends (acceptEntries apply req resp) calls s (fun answer after =>
      answer.success = true ∧ answer.matchIndex = req.prevLogIndex + req.entries.length ∧
        answer.term = resp.term ∧
        Accepts s after (min (req.prevLogIndex + req.entries.length) req.leaderCommit)) := by
  apply ends_get
  dsimp only
  generalize bounded : (if req.prevLogIndex + req.entries.length < req.leaderCommit then
    req.prevLogIndex + req.entries.length else req.leaderCommit) = newCommit
  have same : min (req.prevLogIndex + req.entries.length) req.leaderCommit = newCommit := by
    split at bounded <;> omega
  rw [same]
  split
  · rename_i advance
    apply ends_update
    apply ends_write
    apply ends_bind (ends_applyLoop _)
    intro _ _ after unmoved
    refine ⟨rfl, rfl, rfl, unmoved.term, unmoved.cluster, unmoved.tip, unmoved.log, ?_, ?_⟩
    · rw [unmoved.commit]
      change newCommit = max s.node.commitIndex newCommit
      omega
    · omega
  · rename_i reached
    refine ⟨rfl, rfl, rfl, rfl, rfl, rfl, rfl, ?_, fun _ => rfl⟩
    omega

theorem ends_reconcileEntries (prevIndex : Nat) (entries : List LogEntry) :
    Ends (reconcileEntries prevIndex entries) calls s (fun result after =>
      after = s ∧ result = .ok (reconcile s.store prevIndex entries)) := by
  induction entries generalizing prevIndex calls with
  | nil => exact ⟨rfl, rfl⟩
  | cons first rest ih =>
      apply ends_read
      cases found : s.store.entry (prevIndex + 1) with
      | none => exact ⟨rfl, by simp [reconcile, found]⟩
      | some existing =>
          dsimp only
          split
          · rename_i conflict
            exact ⟨rfl, by simp [reconcile, found, conflict]⟩
          · rename_i same
            simpa [reconcile, found, not_not.mp same] using ih (prevIndex + 1)

/-- The first index of the run of entries with the term that reaches up to `index`. -/
def firstIndexIn (store : Store σ) (term : Nat) : Nat → Nat
  | 0 => 0
  | 1 => 1
  | index + 2 =>
      match store.entry (index + 1) with
      | some entry => if entry.term = term then firstIndexIn store term (index + 1) else index + 2
      | none => index + 2

theorem ends_firstIndexLoop (term index : Nat) :
    Ends (firstIndexLoop term index) calls s (fun found after =>
      after = s ∧ found = firstIndexIn s.store term index) := by
  induction index generalizing calls with
  | zero => exact ⟨rfl, rfl⟩
  | succ index ih =>
      cases index with
      | zero => exact ⟨rfl, rfl⟩
      | succ index =>
          apply ends_read
          unfold firstIndexIn
          cases s.store.entry (index + 1) with
          | none => exact ⟨rfl, rfl⟩
          | some entry =>
              dsimp only
              by_cases same : entry.term = term
              · rw [if_pos same, if_pos same]
                exact ih
              · rw [if_neg same, if_neg same]
                exact ⟨rfl, rfl⟩

theorem ends_firstIndexOfTerm (start term : Nat) :
    Ends (firstIndexOfTerm start term) calls s (fun found after =>
      after = s ∧ found = if term = 0 then start else firstIndexIn s.store term start) := by
  unfold firstIndexOfTerm
  by_cases zero : term = 0
  · rw [if_pos zero, if_pos zero]
    exact ⟨rfl, rfl⟩
  · rw [if_neg zero, if_neg zero]
    exact ends_firstIndexLoop term start

def Local.conflictHints (s : Local σ ρ) (req : AppendEntriesRequest) : Nat × Nat :=
  if req.prevLogIndex > s.node.lastLogIndex then (0, s.node.lastLogIndex + 1)
  else
    match s.store.entry req.prevLogIndex with
    | none => (0, req.prevLogIndex)
    | some entry =>
        (entry.term, if entry.term = 0 then req.prevLogIndex
          else firstIndexIn s.store entry.term req.prevLogIndex)

def Local.merge (s : Local σ ρ) (req : AppendEntriesRequest) : Local σ ρ :=
  let merged := reconcile s.store req.prevLogIndex req.entries
  if merged.1 > 0 ∨ merged.2 ≠ [] then (s.overwrite merged.1 merged.2).refresh else s

theorem ends_mergeEntries (req : AppendEntriesRequest) (resp : AppendEntriesResponse) :
    Ends (mergeEntries apply req resp) calls s (fun answer after =>
      answer.success = true ∧ answer.matchIndex = req.prevLogIndex + req.entries.length ∧
        answer.term = resp.term ∧ Accepts (s.merge req) after
          (min (req.prevLogIndex + req.entries.length) req.leaderCommit)) := by
  apply ends_bind (ends_reconcileEntries _ _)
  rintro _ calls _ ⟨rfl, rfl⟩
  unfold Local.merge
  dsimp only
  split
  · apply ends_write
    exact ends_acceptEntries req resp
  · exact ends_acceptEntries req resp

/-- The receiver's answer to a request of its term, once it follows the sender. -/
structure Answers (req : AppendEntriesRequest) (s : Local σ ρ) (resp : AppendEntriesResponse)
    (t : Local σ ρ) : Prop where
  refused : resp.success = false → t = s
  held : resp.success = true → HoldsPrevious req s
  matched : resp.success = true → resp.matchIndex = req.prevLogIndex + req.entries.length
  accepted : resp.success = true →
    Accepts (s.merge req) t (min (req.prevLogIndex + req.entries.length) req.leaderCommit)

/-- The answer is a success exactly on a held previous entry, names the term it was
given in, and says on a refusal where the logs part. -/
structure Explains (req : AppendEntriesRequest) (s : Local σ ρ) (resp : AppendEntriesResponse) :
    Prop where
  success : HoldsPrevious req s → resp.success = true
  term : resp.term = s.node.currentTerm
  hints : resp.success = false → (resp.conflictTerm, resp.conflictIndex) = s.conflictHints req

theorem ends_checkPrevious (req : AppendEntriesRequest) (resp : AppendEntriesResponse)
    (pending : resp.success = false) :
    Ends (checkPrevious apply req resp) calls s (fun answer after =>
      Answers req s answer after ∧ Explains req s answer) := by
  have refuse : ∀ answer : AppendEntriesResponse, answer.success = false →
      ¬ HoldsPrevious req s → answer.term = s.node.currentTerm →
      (answer.conflictTerm, answer.conflictIndex) = s.conflictHints req →
      Answers req s answer s ∧ Explains req s answer := by
    intro answer denied lacks term hints
    exact ⟨⟨fun _ => rfl, by simp [denied], by simp [denied], by simp [denied]⟩,
      ⟨fun held => absurd held lacks, term, fun _ => hints⟩⟩
  have merge : ∀ calls (answer : AppendEntriesResponse), HoldsPrevious req s →
      answer.term = s.node.currentTerm →
      Ends (mergeEntries apply req answer) calls s (fun answer after =>
        Answers req s answer after ∧ Explains req s answer) := by
    intro calls answer held term
    apply ends_mono (ends_mergeEntries req answer)
    rintro given after ⟨success, matched, sameTerm, accepts⟩
    exact ⟨⟨by simp [success], fun _ => held, fun _ => matched, fun _ => accepts⟩,
      ⟨fun _ => success, sameTerm.trans term, by simp [success]⟩⟩
  apply ends_get
  dsimp only
  split
  · rename_i short
    refine refuse _ pending (fun held => absurd held.1 (by omega)) rfl ?_
    rw [Local.conflictHints, if_pos short]
  · rename_i long
    have hints : s.conflictHints req = _ := if_neg long
    split
    · rename_i positive
      apply ends_read
      cases found : s.store.entry req.prevLogIndex with
      | none =>
          rw [found] at hints
          apply ends_bind (ends_firstIndexOfTerm _ _)
          rintro _ _ _ ⟨rfl, rfl⟩
          refine refuse _ pending (fun held => ?_) rfl hints.symm
          obtain ⟨entry, present, _⟩ := held.2 positive
          rw [found] at present
          contradiction
      | some entry =>
          rw [found] at hints
          dsimp only
          split
          · rename_i conflict
            apply ends_bind (ends_firstIndexOfTerm _ _)
            rintro _ _ _ ⟨rfl, rfl⟩
            refine refuse _ pending (fun held => ?_) rfl hints.symm
            obtain ⟨other, present, same⟩ := held.2 positive
            rw [found] at present
            cases present
            exact conflict same
          · rename_i same
            exact merge _ _ ⟨by omega, fun _ => ⟨entry, found, not_not.mp same⟩⟩ rfl
    · rename_i zero
      exact merge _ _ ⟨by omega, fun positive => absurd positive zero⟩ rfl

theorem ends_becomeFollower (term : Nat) (leaderID : String) :
    Ends (becomeFollower term leaderID) calls s (fun result after =>
      result = .ok () ∧ after = (s.advanceTerm term).follow leaderID) := by
  apply ends_get
  unfold Local.advanceTerm
  split
  · exact ⟨rfl, rfl⟩
  · exact ⟨rfl, rfl⟩

/-- The request is for this cluster, in a version the node speaks, and not stale. -/
def Heeded (req : AppendEntriesRequest) (s : Local σ ρ) : Prop :=
  req.protocolVersion = protocolVersion ∧ req.clusterID = s.node.clusterID ∧
    s.node.currentTerm ≤ req.term

theorem ends_handleAppendEntries (req : AppendEntriesRequest) :
    Ends (handleAppendEntries apply req) calls s (fun resp after =>
      (resp.success = false ∧ after = s ∧ ¬ Heeded req s) ∨
        Heeded req s ∧
          Answers req ((s.advanceTerm req.term).follow req.leaderID) resp after ∧
          Explains req ((s.advanceTerm req.term).follow req.leaderID) resp) := by
  apply ends_get
  dsimp only
  split
  · rename_i foreign
    exact Or.inl ⟨rfl, rfl, fun heeded => by simp [heeded.1, heeded.2.1] at foreign⟩
  · rename_i known
    rw [not_or, not_not, not_not] at known
    split
    · rename_i stale
      exact Or.inl ⟨rfl, rfl, fun heeded => absurd heeded.2.2 (by omega)⟩
    · rename_i current
      apply ends_bind (ends_becomeFollower _ _)
      rintro _ _ _ ⟨rfl, rfl⟩
      apply ends_mono (ends_checkPrevious req _ rfl)
      exact fun resp after facts => Or.inr ⟨⟨known.1, known.2, by omega⟩, facts⟩

end Smooth

def receive (apply : Option (ApplyFunc σ ρ)) (s : Local σ ρ) (req : AppendEntriesRequest) :
    Option AppendEntriesResponse × Local σ ρ :=
  let (resp, _, after) := (handleAppendEntries apply req).run Plan.smooth [] s
  (resp, after)

section Receiving

variable {s : Local σ ρ} {req : AppendEntriesRequest}

theorem receive_spec (apply : Option (ApplyFunc σ ρ)) (s : Local σ ρ) (req : AppendEntriesRequest) :
    ∃ resp, (receive apply s req).1 = some resp ∧
      ((resp.success = false ∧ (receive apply s req).2 = s ∧ ¬ Heeded req s) ∨
        Heeded req s ∧
          Answers req ((s.advanceTerm req.term).follow req.leaderID) resp
            (receive apply s req).2 ∧
          Explains req ((s.advanceTerm req.term).follow req.leaderID) resp) := by
  obtain ⟨resp, made, after, run, facts⟩ := ends_run (ends_handleAppendEntries req)
  unfold receive
  rw [run]
  exact ⟨resp, rfl, facts⟩

theorem followed_facts (reached : s.node.currentTerm ≤ req.term) (leaderID : String) :
    ((s.advanceTerm req.term).follow leaderID).store.log = s.store.log ∧
    ((s.advanceTerm req.term).follow leaderID).node.currentTerm = req.term ∧
    ((s.advanceTerm req.term).follow leaderID).node.clusterID = s.node.clusterID ∧
    ((s.advanceTerm req.term).follow leaderID).node.lastLogIndex = s.node.lastLogIndex ∧
    ((s.advanceTerm req.term).follow leaderID).node.commitIndex = s.node.commitIndex := by
  have facts : (s.advanceTerm req.term).store.log = s.store.log ∧
      (s.advanceTerm req.term).node.clusterID = s.node.clusterID ∧
      (s.advanceTerm req.term).node.lastLogIndex = s.node.lastLogIndex ∧
      (s.advanceTerm req.term).node.commitIndex = s.node.commitIndex := by
    unfold Local.advanceTerm
    split <;> exact ⟨rfl, rfl, rfl, rfl⟩
  rw [follow_store, follow_currentTerm, advanceTerm_currentTerm s _ reached, follow_node]
  exact ⟨facts.1, rfl, facts.2⟩

end Receiving

section MergeRule

variable {log : List LogEntry} {s : Local σ ρ} {req : AppendEntriesRequest}

/-- The entry sent at the position is in the log, by term, at its place after `prev`. -/
def Present (log : List LogEntry) (prev : Nat) (entries : List LogEntry) (position : Nat) : Prop :=
  ∃ held sent, log[prev + position]? = some held ∧ entries[position]? = some sent ∧
    held.term = sent.term

/-- The log stays if every sent entry is present; otherwise it is cut at the first
that is not and goes on with the sent entries from there. -/
def Merges (log : List LogEntry) (prev : Nat) (entries merged : List LogEntry) : Prop :=
  (∀ position, position < entries.length → Present log prev entries position) ∧ merged = log ∨
    ∃ place, place < entries.length ∧
      (∀ position, position < place → Present log prev entries position) ∧
      ¬ Present log prev entries place ∧
      merged = log.take (prev + place) ++ entries.drop place

def FirstOfTerm (log : List LogEntry) (term index : Nat) : Prop :=
  1 ≤ index ∧ (∃ entry, log[index - 1]? = some entry ∧ entry.term = term) ∧
    ∀ position entry, log[position]? = some entry → entry.term = term → index ≤ position + 1

theorem present_stored {store : Store σ} (stores : StoresLog store.log log) {prev position : Nat}
    {entries : List LogEntry} {sent : LogEntry} (given : entries[position]? = some sent) :
    Present log prev entries position ↔
      ∃ entry, store.entry (prev + position + 1) = some entry ∧ entry.term = sent.term := by
  rw [storesLog_entry stores]
  constructor
  · rintro ⟨held, other, found, same, terms⟩
    rw [given] at same
    cases same
    exact ⟨held, found, terms⟩
  · rintro ⟨held, found, terms⟩
    exact ⟨held, sent, found, given, terms⟩

theorem present_reach {prev place : Nat} {entries : List LogEntry} (inside : prev ≤ log.length)
    (earlier : ∀ position, position < place → Present log prev entries position) :
    prev + place ≤ log.length := by
  cases place with
  | zero => exact inside
  | succ before =>
      obtain ⟨held, _, found, _⟩ := earlier before (by omega)
      have bound := (List.getElem?_eq_some_iff.mp found).1
      omega

theorem merge_written {place truncateFrom : Nat} (reach : place < req.entries.length)
    (result : reconcile s.store req.prevLogIndex req.entries =
      (truncateFrom, req.entries.drop place)) :
    s.merge req = (s.overwrite truncateFrom (req.entries.drop place)).refresh := by
  rw [Local.merge, result]
  refine if_pos (Or.inr fun nothing => ?_)
  have beyond := List.drop_eq_nil_iff.mp nothing
  omega

theorem merge_cut {place truncateFrom : Nat} (reach : place < req.entries.length)
    (earlier : ∀ position, position < place → Present log req.prevLogIndex req.entries position)
    (absent : ¬ Present log req.prevLogIndex req.entries place)
    (result : reconcile s.store req.prevLogIndex req.entries =
      (truncateFrom, req.entries.drop place))
    (stored : StoresLog (s.store.overwriteEntries truncateFrom (req.entries.drop place)).log
      (log.take (req.prevLogIndex + place) ++ req.entries.drop place)) :
    ∃ merged, StoresLog (s.merge req).store.log merged ∧
      (s.merge req).node.lastLogIndex = merged.length ∧
      Merges log req.prevLogIndex req.entries merged := by
  rw [merge_written reach result]
  have last : (s.store.overwriteEntries truncateFrom (req.entries.drop place)).lastIndex = _ :=
    storesLog_lastIndex stored
  exact ⟨_, stored, last, Or.inr ⟨place, reach, earlier, absent, rfl⟩⟩

theorem merge_merges (stores : StoresLog s.store.log log) (cached : s.node.lastLogIndex = log.length)
    (inside : req.prevLogIndex ≤ log.length)
    (consecutive : Consecutive req.prevLogIndex req.entries) :
    ∃ merged, StoresLog (s.merge req).store.log merged ∧
      (s.merge req).node.lastLogIndex = merged.length ∧
      Merges log req.prevLogIndex req.entries merged := by
  rcases reconcile_cases s.store req.entries req.prevLogIndex with
    ⟨result, held⟩ | ⟨place, first, given, below, outcome⟩
  · have idle : s.merge req = s := by
      rw [Local.merge, result]
      exact if_neg (by simp)
    rw [idle]
    refine ⟨log, stores, cached, Or.inl ⟨?_, rfl⟩⟩
    intro position bound
    have sent := List.getElem?_eq_getElem bound
    exact (present_stored stores sent).mpr (held position _ sent)
  · have reach := (List.getElem?_eq_some_iff.mp given).1
    have earlier : ∀ position, position < place →
        Present log req.prevLogIndex req.entries position := by
      intro position bound
      have sent : req.entries[position]? = some req.entries[position] :=
        List.getElem?_eq_getElem (by omega)
      exact (present_stored stores sent).mpr (below position _ bound sent)
    have following : Consecutive (log.take (req.prevLogIndex + place)).length
        (req.entries.drop place) := by
      rw [List.length_take, Nat.min_eq_left (present_reach inside earlier)]
      exact consecutive_drop consecutive place
    rcases outcome with ⟨missing, result⟩ | ⟨⟨existing, found, conflict⟩, result⟩
    · refine merge_cut reach earlier ?_ result ?_
      · rw [present_stored stores given, missing]
        rintro ⟨_, ⟨⟩, _⟩
      · rw [storesLog_entry stores] at missing
        have short := List.getElem?_eq_none_iff.mp missing
        rw [List.take_of_length_le short] at following ⊢
        exact storesLog_putEntries stores _ following
    · refine merge_cut reach earlier ?_ result ?_
      · rw [present_stored stores given, found]
        rintro ⟨_, ⟨⟩, same⟩
        exact conflict same
      · simp only [Store.overwriteEntries]
        rw [if_pos (by omega)]
        exact storesLog_putEntries (storesLog_truncate stores (req.prevLogIndex + place)) _
          following

theorem ordered_le (ordered : log.Pairwise fun earlier later => earlier.term ≤ later.term)
    {early late : Nat} {first second : LogEntry} (order : early ≤ late)
    (here : log[early]? = some first) (there : log[late]? = some second) :
    first.term ≤ second.term := by
  obtain ⟨inside, rfl⟩ := List.getElem?_eq_some_iff.mp here
  obtain ⟨reach, rfl⟩ := List.getElem?_eq_some_iff.mp there
  rcases Nat.eq_or_lt_of_le order with rfl | below
  · exact Nat.le_refl _
  · exact List.pairwise_iff_getElem.mp ordered early late inside reach below

theorem firstIndexIn_first {store : Store σ} (stores : StoresLog store.log log)
    (ordered : log.Pairwise fun earlier later => earlier.term ≤ later.term) (term index : Nat)
    (entry : LogEntry) (found : log[index]? = some entry) (same : entry.term = term) :
    FirstOfTerm log term (firstIndexIn store term (index + 1)) := by
  -- Terms do not decrease, so the run of the term that reaches here is all of it.
  induction index generalizing entry with
  | zero =>
      refine ⟨Nat.le_refl _, ⟨entry, found, same⟩, fun position _ _ _ => ?_⟩
      rw [firstIndexIn]
      omega
  | succ index ih =>
      have inside := (List.getElem?_eq_some_iff.mp found).1
      have previous : log[index]? = some log[index] := List.getElem?_eq_getElem (by omega)
      rw [firstIndexIn, storesLog_entry stores, previous]
      dsimp only
      by_cases run : log[index].term = term
      · rw [if_pos run]
        exact ih _ previous run
      · rw [if_neg run]
        refine ⟨by omega, ⟨entry, found, same⟩, ?_⟩
        intro position other here terms
        by_contra early
        have upper := ordered_le ordered (Nat.le_succ index) previous found
        have lower := ordered_le ordered (show position ≤ index by omega) here previous
        omega

theorem holdsPrevious_iff (stores : StoresLog s.store.log log)
    (cached : s.node.lastLogIndex = log.length) :
    HoldsPrevious req s ↔ req.prevLogIndex = 0 ∨
      ∃ entry, 0 < req.prevLogIndex ∧ log[req.prevLogIndex - 1]? = some entry ∧
        entry.term = req.prevLogTerm := by
  rw [HoldsPrevious, cached]
  constructor
  · rintro ⟨_, previous⟩
    rcases Nat.eq_zero_or_pos req.prevLogIndex with zero | positive
    · exact Or.inl zero
    · obtain ⟨entry, found, term⟩ := previous positive
      obtain ⟨before, same⟩ : ∃ before, req.prevLogIndex = before + 1 :=
        ⟨req.prevLogIndex - 1, by omega⟩
      rw [same, storesLog_entry stores] at found
      exact Or.inr ⟨entry, positive, by rw [same]; exact found, term⟩
  · rintro (zero | ⟨entry, positive, found, term⟩)
    · exact ⟨by omega, by omega⟩
    · have inside := (List.getElem?_eq_some_iff.mp found).1
      refine ⟨by omega, fun _ => ⟨entry, ?_, term⟩⟩
      rw [show req.prevLogIndex = req.prevLogIndex - 1 + 1 by omega, storesLog_entry stores]
      exact found

theorem conflictHints_describe (stores : StoresLog s.store.log log)
    (cached : s.node.lastLogIndex = log.length)
    (ordered : log.Pairwise fun earlier later => earlier.term ≤ later.term)
    (positive : ∀ entry ∈ log, 1 ≤ entry.term) (lacks : ¬ HoldsPrevious req s) :
    log.length < req.prevLogIndex ∧ s.conflictHints req = (0, log.length + 1) ∨
      ∃ entry index, log[req.prevLogIndex - 1]? = some entry ∧ entry.term ≠ req.prevLogTerm ∧
        s.conflictHints req = (entry.term, index) ∧ FirstOfTerm log entry.term index := by
  rw [holdsPrevious_iff stores cached, not_or] at lacks
  unfold Local.conflictHints
  by_cases short : req.prevLogIndex > s.node.lastLogIndex
  · rw [if_pos short, cached]
    exact Or.inl ⟨by omega, rfl⟩
  · rw [if_neg short]
    obtain ⟨before, same⟩ : ∃ before, req.prevLogIndex = before + 1 :=
      ⟨req.prevLogIndex - 1, by omega⟩
    have found : log[before]? = some log[before] := List.getElem?_eq_getElem (by omega)
    have later := positive _ (List.mem_of_getElem? found)
    rw [same, Nat.add_sub_cancel] at lacks ⊢
    rw [storesLog_entry stores, found]
    refine Or.inr ⟨_, _, rfl, fun matched => lacks.2 ⟨_, by omega, found, matched⟩, rfl, ?_⟩
    rw [if_neg (by omega)]
    exact firstIndexIn_first stores ordered _ before _ found rfl

/-- With no store call failing, `handleAppendEntries` is the merge rule on every
request it heeds. -/
theorem appendEntries_merge_rule (apply : Option (ApplyFunc σ ρ)) (s : Local σ ρ)
    (log : List LogEntry) (req : AppendEntriesRequest) (stores : StoresLog s.store.log log)
    (ordered : log.Pairwise fun earlier later => earlier.term ≤ later.term)
    (positive : ∀ entry ∈ log, 1 ≤ entry.term) (cached : s.node.lastLogIndex = log.length)
    (version : req.protocolVersion = protocolVersion) (cluster : req.clusterID = s.node.clusterID)
    (current : s.node.currentTerm ≤ req.term)
    (consecutive : Consecutive req.prevLogIndex req.entries) :
    ∃ resp after, receive apply s req = (some resp, after) ∧
      (resp.success = true ↔ req.prevLogIndex = 0 ∨
        ∃ entry, 0 < req.prevLogIndex ∧ log[req.prevLogIndex - 1]? = some entry ∧
          entry.term = req.prevLogTerm) ∧
      (resp.success = true →
        (∃ merged, StoresLog after.store.log merged ∧ after.node.lastLogIndex = merged.length ∧
          Merges log req.prevLogIndex req.entries merged) ∧
        resp.matchIndex = req.prevLogIndex + req.entries.length ∧
        after.node.commitIndex = max s.node.commitIndex (min req.leaderCommit resp.matchIndex)) ∧
      (resp.success = false →
        StoresLog after.store.log log ∧ after.node.commitIndex = s.node.commitIndex ∧
        (log.length < req.prevLogIndex ∧ resp.conflictTerm = 0 ∧
            resp.conflictIndex = log.length + 1 ∨
          ∃ entry, log[req.prevLogIndex - 1]? = some entry ∧ entry.term ≠ req.prevLogTerm ∧
            resp.conflictTerm = entry.term ∧ FirstOfTerm log entry.term resp.conflictIndex)) := by
  obtain ⟨resp, answered, ⟨_, _, foreign⟩ | ⟨_, answers, explains⟩⟩ := receive_spec apply s req
  · exact absurd ⟨version, cluster, current⟩ foreign
  obtain ⟨sameLog, _, _, tip, commit⟩ := followed_facts current req.leaderID
  generalize (s.advanceTerm req.term).follow req.leaderID = followed at *
  have followedStores : StoresLog followed.store.log log := by
    rw [sameLog]
    exact stores
  have followedCached : followed.node.lastLogIndex = log.length := tip.trans cached
  have holds : HoldsPrevious req followed ↔ _ := holdsPrevious_iff followedStores followedCached
  have granted : resp.success = true ↔ HoldsPrevious req followed :=
    ⟨answers.held, explains.success⟩
  refine ⟨resp, (receive apply s req).2, Prod.ext answered rfl, granted.trans holds, ?_, ?_⟩
  · intro success
    have inside := (answers.held success).1
    rw [followedCached] at inside
    obtain ⟨merged, stored, last, rule⟩ :=
      merge_merges followedStores followedCached inside consecutive
    have accepts := answers.accepted success
    refine ⟨⟨merged, by rw [accepts.log]; exact stored, accepts.tip.trans last, rule⟩,
      answers.matched success, ?_⟩
    have kept : (followed.merge req).node.commitIndex = followed.node.commitIndex := by
      unfold Local.merge
      dsimp only
      split <;> rfl
    rw [accepts.commit, kept, commit, answers.matched success, Nat.min_comm]
  · intro denied
    have same := answers.refused denied
    rw [same]
    refine ⟨followedStores, commit, ?_⟩
    have lacks : ¬ HoldsPrevious req followed := by
      rw [← granted, denied]
      simp
    have hints := explains.hints denied
    rcases conflictHints_describe followedStores followedCached ordered positive lacks with
      ⟨short, same⟩ | ⟨entry, index, found, differs, same, first⟩
    · rw [same, Prod.mk.injEq] at hints
      exact Or.inl ⟨short, hints⟩
    · rw [same, Prod.mk.injEq] at hints
      exact Or.inr ⟨entry, found, differs, hints.1, hints.2 ▸ first⟩

end MergeRule

/-- The leader of term 2 has four entries; a follower has a tail of term 1. -/
def growingLog : List LogEntry :=
  [⟨1, 1, .noop, []⟩, ⟨2, 2, .noop, []⟩, ⟨3, 2, .command, [7]⟩, ⟨4, 2, .command, [8]⟩]

def staleLog : List LogEntry := [⟨1, 1, .noop, []⟩, ⟨2, 1, .command, [5]⟩]

def longAppend : AppendEntriesRequest :=
  ⟨protocolVersion, "trio", "b", 2, "b", 1, 1, growingLog.drop 1, 3⟩

def staleFollower : Local Unit Unit where
  node := { (Config.blank ⟨"a", "trio", ["a", "b", "c"]⟩) with
    currentTerm := 2
    lastLogIndex := 2
    lastLogTerm := 1 }
  store := { Store.migrated () with
    currentTerm := 2
    log := Bucket.ofList (logSentinel :: staleLog) }
  calls := []
  proposals := []
  outcomes := []

theorem staleLog_stored : StoresLog staleFollower.store.log staleLog := by
  refine ⟨rfl, ?_⟩
  intro position entry found
  match position with
  | 0 | 1 =>
      cases found
      rfl
  | _ + 2 => cases found

theorem appendEntries_merge_rule_stale :
    ∃ resp after, receive none staleFollower longAppend = (some resp, after) ∧
      resp.success = true ∧ resp.matchIndex = 4 ∧ after.node.commitIndex = 3 := by
  have consecutive : Consecutive longAppend.prevLogIndex longAppend.entries := by
    intro position entry found
    match position with
    | 0 | 1 | 2 =>
        cases found
        rfl
    | _ + 3 => cases found
  obtain ⟨resp, after, received, granted, accepted, _⟩ := appendEntries_merge_rule none
    staleFollower staleLog longAppend staleLog_stored (by decide) (by decide) rfl rfl rfl
    (Nat.le_refl _) consecutive
  have success := granted.mpr (Or.inr ⟨⟨1, 1, .noop, []⟩, by decide, rfl, rfl⟩)
  obtain ⟨_, matched, commit⟩ := accepted success
  rw [matched] at commit
  exact ⟨resp, after, received, success, matched, commit⟩

end QuorumLimiter
