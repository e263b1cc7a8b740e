import QuorumLimiter.Raft.Receiver
import QuorumLimiter.Raft.Slices

/-!
A follower that receives the append requests of one leader in any order, any of
them any number of times. The requests are cut from the leader's log as it grew;
what the follower once acknowledged stays in its log, and an acknowledged request
changes nothing when it comes again.
-/

namespace QuorumLimiter

open ReplicatedLog

variable {σ ρ : Type}

def receiveAll (apply : Option (ApplyFunc σ ρ)) (s : Local σ ρ) (reqs : List AppendEntriesRequest) :
    Local σ ρ :=
  reqs.foldl (fun s req => (receive apply s req).2) s

/-- The log is the ledger up to `count`, and reaches there. -/
def Holds (log ledger : List LogEntry) (count : Nat) : Prop :=
  count ≤ log.length ∧ log.take count = ledger.take count

structure Trailing (ledger : List LogEntry) (term : Nat) (s : Local σ ρ) (log : List LogEntry) :
    Prop where
  stores : StoresLog s.store.log log
  cached : s.node.lastLogIndex = log.length
  matching : Matching log ledger
  reached : s.node.currentTerm ≤ term

/-- The request was accepted at some moment, and still would be. -/
structure Acknowledged (ledger : List LogEntry) (req : AppendEntriesRequest) (s : Local σ ρ)
    (log : List LogEntry) : Prop where
  version : req.protocolVersion = protocolVersion
  cluster : req.clusterID = s.node.clusterID
  current : s.node.currentTerm = req.term
  holds : Holds log ledger (req.prevLogIndex + req.entries.length)
  commit : min (req.prevLogIndex + req.entries.length) req.leaderCommit ≤ s.node.commitIndex

section Receiving

variable {apply : Option (ApplyFunc σ ρ)} {s : Local σ ρ} {ledger log : List LogEntry}
  {req : AppendEntriesRequest}

theorem holds_longer {count long : Nat} (reach : long ≤ ledger.length)
    (differs : log.take long ≠ ledger.take long) (holds : Holds log ledger count) :
    Holds (ledger.take long) ledger count := by
  have below : count < long := by
    by_contra above
    exact differs (take_shorter _ _ _ _ (by omega) holds.2)
  refine ⟨?_, ?_⟩
  · rw [List.length_take]
    omega
  · rw [List.take_take, Nat.min_eq_left (by omega)]

theorem merge_trailing {term : Nat} (trailing : Trailing ledger term s log)
    (slice : Slice ledger req) (held : HoldsPrevious req s) :
    ∃ merged, Trailing ledger term (s.merge req) merged ∧
      Holds merged ledger (req.prevLogIndex + req.entries.length) ∧
      (∀ count, Holds log ledger count → Holds merged ledger count) ∧
      (s.merge req).node.currentTerm = s.node.currentTerm ∧
      (s.merge req).node.clusterID = s.node.clusterID ∧
      (s.merge req).node.commitIndex = s.node.commitIndex := by
  -- Merging a slice of the ledger gives a log that holds it all, and loses nothing that was of
  -- the ledger.
  have reach := slice_reach slice
  cases result : reconcile s.store req.prevLogIndex req.entries with
  | mk truncateFrom toAppend =>
      simp only [Local.merge, result]
      split
      · rename_i needed
        have appends := reconcile_appends s.store result needed
        obtain ⟨stored, differs⟩ :=
          slice_merged slice trailing.stores trailing.matching held.2 result appends
        refine ⟨_, ⟨stored, ?_, matching_take ledger _, trailing.reached⟩, ?_, ?_, rfl, rfl, rfl⟩
        · have last : (s.store.overwriteEntries truncateFrom toAppend).lastIndex = _ :=
            storesLog_lastIndex stored
          exact last
        · refine ⟨?_, ?_⟩
          · rw [List.length_take, Nat.min_eq_left reach]
          · rw [List.take_take, Nat.min_self]
        · exact fun count => holds_longer reach differs
      · rename_i idle
        refine ⟨log, trailing, ?_, fun _ holds => holds, rfl, rfl, rfl⟩
        rcases reconcile_cases s.store req.entries req.prevLogIndex with
          ⟨_, present⟩ | ⟨place, first, found, _, outcome⟩
        · have agrees := slice_agrees slice trailing.stores trailing.matching held.2 _
            (Nat.le_refl _) fun position sent _ there => present position sent there
          exact ⟨length_of_take _ _ _ reach agrees, agrees⟩
        · have inside := (List.getElem?_eq_some_iff.mp found).1
          rw [not_or, not_not] at idle
          have nothing : req.entries.drop place = [] := by
            rcases outcome with ⟨_, same⟩ | ⟨_, same⟩ <;> rw [result, Prod.mk.injEq] at same <;>
              exact same.2.symm.trans idle.2
          exact absurd (List.drop_eq_nil_iff.mp nothing) (by omega)

theorem receive_trailing {term : Nat} (apply : Option (ApplyFunc σ ρ))
    (trailing : Trailing ledger term s log) (slice : Slice ledger req) (sent : req.term = term) :
    ∃ reached, Trailing ledger term (receive apply s req).2 reached ∧
      (∀ other, other.term = term → Acknowledged ledger other s log →
        Acknowledged ledger other (receive apply s req).2 reached) ∧
      ∀ resp, (receive apply s req).1 = some resp → resp.success = true →
        resp.matchIndex = req.prevLogIndex + req.entries.length ∧
          Acknowledged ledger req (receive apply s req).2 reached := by
  -- One request: the log keeps what it has of the ledger, and an acceptance is an
  -- acknowledgement of the request.
  obtain ⟨resp, answered, ⟨denied, same, _⟩ | ⟨heeded, answers, _⟩⟩ := receive_spec apply s req
  · refine ⟨log, by rw [same]; exact trailing, fun _ _ known => by rw [same]; exact known, ?_⟩
    intro other given success
    rw [answered] at given
    cases given
    simp [denied] at success
  obtain ⟨sameLog, sameTerm, cluster, tip, commit⟩ := followed_facts heeded.2.2 req.leaderID
  have followed : Trailing ledger term ((s.advanceTerm req.term).follow req.leaderID) log :=
    ⟨by rw [sameLog]; exact trailing.stores, tip.trans trailing.cached, trailing.matching,
      Nat.le_of_eq (sameTerm.trans sent)⟩
  cases success : resp.success with
  | false =>
      have same := answers.refused success
      refine ⟨log, by rw [same]; exact followed, ?_, ?_⟩
      · intro other current known
        rw [same]
        exact ⟨known.version, known.cluster.trans cluster.symm,
          sameTerm.trans (sent.trans current.symm), known.holds, commit ▸ known.commit⟩
      · intro other given granted
        rw [answered] at given
        cases given
        simp [success] at granted
  | true =>
      obtain ⟨merged, kept, holds, keeps, mergedTerm, mergedCluster, mergedCommit⟩ :=
        merge_trailing followed slice (answers.held success)
      have accepts := answers.accepted success
      have afterTerm : (receive apply s req).2.node.currentTerm = req.term :=
        (accepts.term.trans mergedTerm).trans sameTerm
      have afterCluster : (receive apply s req).2.node.clusterID = s.node.clusterID :=
        (accepts.cluster.trans mergedCluster).trans cluster
      have afterCommit := accepts.commit
      rw [mergedCommit, commit] at afterCommit
      refine ⟨merged, ⟨by rw [accepts.log]; exact kept.stores, accepts.tip.trans kept.cached,
        kept.matching, Nat.le_of_eq (afterTerm.trans sent)⟩, ?_, ?_⟩
      · intro other current known
        refine ⟨known.version, known.cluster.trans afterCluster.symm,
          afterTerm.trans (sent.trans current.symm), keeps _ known.holds, ?_⟩
        have := known.commit
        omega
      · intro other given _
        rw [answered] at given
        cases given
        refine ⟨answers.matched success, heeded.1, heeded.2.1.trans afterCluster.symm, afterTerm,
          holds, ?_⟩
        omega

theorem receiveAll_trailing {term : Nat} (apply : Option (ApplyFunc σ ρ))
    (reqs : List AppendEntriesRequest) (trailing : Trailing ledger term s log)
    (built : ∀ req ∈ reqs, Slice ledger req ∧ req.term = term) :
    ∃ reached, Trailing ledger term (receiveAll apply s reqs) reached ∧
      ∀ other, other.term = term → Acknowledged ledger other s log →
        Acknowledged ledger other (receiveAll apply s reqs) reached := by
  induction reqs generalizing s log with
  | nil => exact ⟨log, trailing, fun _ _ known => known⟩
  | cons req rest ih =>
      obtain ⟨slice, sent⟩ := built req (by simp)
      obtain ⟨middle, next, keeps, _⟩ := receive_trailing apply trailing slice sent
      obtain ⟨reached, last, keepsOn⟩ := ih next fun other member => built other (by simp [member])
      refine ⟨reached, last, fun other current known => ?_⟩
      exact keepsOn other current (keeps other current known)

theorem receive_again {term : Nat} (apply : Option (ApplyFunc σ ρ))
    (trailing : Trailing ledger term s log) (slice : Slice ledger req)
    (known : Acknowledged ledger req s log) :
    ∃ resp, receive apply s req = (some resp, s.follow req.leaderID) ∧ resp.success = true ∧
      resp.matchIndex = req.prevLogIndex + req.entries.length := by
  -- An acknowledged request is accepted again, and changes nothing.
  have same : s.advanceTerm req.term = s := if_neg (by rw [known.current]; omega)
  have present : ∀ position entry, position < req.prevLogIndex + req.entries.length →
      ledger[position]? = some entry → s.store.entry (position + 1) = some entry := by
    intro position entry bound found
    rw [storesLog_entry trailing.stores, getElem?_of_take _ _ _ _ bound known.holds.2]
    exact found
  have held : HoldsPrevious req (s.follow req.leaderID) := by
    rw [HoldsPrevious, follow_store, follow_node]
    refine ⟨?_, ?_⟩
    · change req.prevLogIndex ≤ s.node.lastLogIndex
      have := known.holds.1
      rw [trailing.cached]
      omega
    · intro positive
      obtain ⟨entry, found, term⟩ := slice.prevTerm positive
      refine ⟨entry, ?_, term⟩
      have := present _ entry (by omega) found
      rwa [Nat.sub_add_cancel positive] at this
  have idle : (s.follow req.leaderID).merge req = s.follow req.leaderID := by
    have nothing : reconcile s.store req.prevLogIndex req.entries = (0, []) := by
      apply reconcile_held
      intro position sent found
      have inside := (List.getElem?_eq_some_iff.mp found).1
      refine ⟨sent, ?_, rfl⟩
      exact present _ sent (by omega) (slice_entry slice position sent found)
    simp [Local.merge, nothing]
  obtain ⟨resp, answered, ⟨_, _, foreign⟩ | ⟨_, answers, explains⟩⟩ := receive_spec apply s req
  · exact absurd ⟨known.version, known.cluster, Nat.le_of_eq known.current⟩ foreign
  rw [same] at answers explains
  have success := explains.success held
  have accepts := answers.accepted success
  rw [idle] at accepts
  have commit : (s.follow req.leaderID).node.commitIndex = s.node.commitIndex := by
    rw [follow_node]
    rfl
  refine ⟨resp, Prod.ext answered (accepts.idle ?_), success, answers.matched success⟩
  rw [commit]
  exact known.commit

end Receiving

/-- Whatever requests of the leader come before and after an accepted one, the
follower keeps what it acknowledged, and accepts the request again as a repetition. -/
theorem acknowledgement_kept (apply : Option (ApplyFunc σ ρ)) (ledger log : List LogEntry)
    (term : Nat) (s : Local σ ρ) (stores : StoresLog s.store.log log)
    (cached : s.node.lastLogIndex = log.length) (matching : Matching log ledger)
    (current : s.node.currentTerm ≤ term) (before after : List AppendEntriesRequest)
    (req : AppendEntriesRequest)
    (built : ∀ other ∈ before ++ req :: after, Slice ledger other ∧ other.term = term)
    (resp : AppendEntriesResponse)
    (answered : (receive apply (receiveAll apply s before) req).1 = some resp)
    (accepted : resp.success = true) :
    ∃ reached,
      StoresLog (receiveAll apply s (before ++ req :: after)).store.log reached ∧
      resp.matchIndex ≤ reached.length ∧
      (∀ position, position < resp.matchIndex → reached[position]? = ledger[position]?) ∧
      ∃ again repeated,
        receive apply (receiveAll apply s (before ++ req :: after)) req = (some again, repeated) ∧
        again.success = true ∧ again.matchIndex = resp.matchIndex ∧
        repeated.store = (receiveAll apply s (before ++ req :: after)).store ∧
        repeated.node.commitIndex =
          (receiveAll apply s (before ++ req :: after)).node.commitIndex ∧
        repeated.node.lastApplied =
          (receiveAll apply s (before ++ req :: after)).node.lastApplied := by
  obtain ⟨slice, sent⟩ := built req (by simp)
  obtain ⟨early, trailing, _⟩ := receiveAll_trailing apply before ⟨stores, cached, matching, current⟩
    fun other member => built other (by simp [member])
  obtain ⟨middle, next, _, acknowledged⟩ := receive_trailing apply trailing slice sent
  obtain ⟨matched, known⟩ := acknowledged resp answered accepted
  obtain ⟨reached, last, keeps⟩ := receiveAll_trailing apply after next
    fun other member => built other (by simp [member])
  have still := keeps req sent known
  obtain ⟨again, repeated, success, position⟩ := receive_again apply last slice still
  have path : receiveAll apply s (before ++ req :: after) =
      receiveAll apply (receive apply (receiveAll apply s before) req).2 after := by
    simp [receiveAll]
  rw [path]
  refine ⟨reached, last.stores, matched ▸ still.holds.1, ?_, again, _, repeated, success,
    position.trans matched.symm, follow_store _ _, ?_, ?_⟩
  · intro position below
    exact getElem?_of_take _ _ _ _ (matched ▸ below) still.holds.2
  · rw [follow_node]
    rfl
  · rw [follow_node]
    rfl

/-- The follower with a tail of term 1 hears of all four entries, then of the first
two, and is asked the first request again. -/
def shortAppend : AppendEntriesRequest :=
  ⟨protocolVersion, "trio", "b", 2, "b", 0, 0, growingLog.take 2, 0⟩

theorem acknowledgement_kept_stale :
    ∃ reached,
      StoresLog (receiveAll none staleFollower [longAppend, shortAppend]).store.log reached ∧
      4 ≤ reached.length ∧ (∀ position, position < 4 → reached[position]? = growingLog[position]?) ∧
      ∃ again repeated,
        receive none (receiveAll none staleFollower [longAppend, shortAppend]) longAppend =
          (some again, repeated) ∧ again.success = true ∧ again.matchIndex = 4 := by
  have matching : Matching staleLog growingLog := by
    intro index held wrote found written same
    match index with
    | 0 => rfl
    | 1 =>
        cases found
        cases written
        cases same
    | _ + 2 => cases found
  have numbered : Consecutive 0 growingLog := by
    intro position entry found
    match position with
    | 0 | 1 | 2 | 3 =>
        cases found
        rfl
    | _ + 4 => cases found
  have built : ∀ other ∈ [longAppend, shortAppend], Slice growingLog other ∧ other.term = 2 := by
    intro other member
    simp only [List.mem_cons, List.not_mem_nil, or_false] at member
    rcases member with rfl | rfl
    · exact ⟨⟨numbered, by decide, fun _ => ⟨_, rfl, rfl⟩, List.prefix_rfl⟩, rfl⟩
    · exact ⟨⟨numbered, by decide, by decide, List.take_prefix _ _⟩, rfl⟩
  obtain ⟨reached, kept, long, agrees, again, repeated, received, success, position, _⟩ :=
    acknowledgement_kept none growingLog staleLog 2 staleFollower staleLog_stored rfl matching
      (Nat.le_refl _) [] [shortAppend] longAppend built _ rfl rfl
  exact ⟨reached, kept, long, agrees, again, repeated, received, success, position⟩

end QuorumLimiter
