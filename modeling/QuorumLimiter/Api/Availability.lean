import QuorumLimiter.Api.Rpc
import QuorumLimiter.Raft.Liveness

/-!
Availability with the cap on request bodies. A request reaches its peer if its JSON is
within `maxInternalBody`; the largest that a node will have to send holds its whole log,
the entry it appends when it is elected, and the command. If that fits for every node,
the cluster can still be brought to answer a call.
-/

namespace QuorumLimiter

open JsonText

variable {σ ρ : Type}

section Sizes

theorem digits_eq (n : Nat) : digits n = (Nat.toDigits 10 n).length := by
  have single (text : List Char) (all : ∀ c ∈ text, c.isDigit = true) : size text = text.length := by
    induction text with
    | nil => rfl
    | cons c rest ih =>
        have narrow : c.utf8Size = 1 :=
          Char.utf8Size_eq_one_iff.mpr (Nat.le_of_lt_succ (Json.digit_ascii (all c List.mem_cons_self)))
        rw [size_cons, narrow, ih fun c member => all c (List.mem_cons_of_mem _ member),
          List.length_cons, Nat.add_comm]
  rw [digits, Json.number_digits, single _ (Json.toDigits_all n)]

theorem digits_mono {n m : Nat} (order : n ≤ m) : digits n ≤ digits m := by
  rw [digits_eq, digits_eq]
  have positive : 0 < (Nat.toDigits 10 m).length := Nat.length_toDigits_pos
  rw [Nat.length_toDigits_le_iff (by decide) positive]
  exact Nat.lt_of_le_of_lt order
    ((Nat.length_toDigits_le_iff (by decide) positive).mp (Nat.le_refl _))

def entriesCost (entries : List LogEntry) : Nat :=
  (entries.map fun entry => entry.wireSize + 1).sum

theorem entriesCost_append (left right : List LogEntry) :
    entriesCost (left ++ right) = entriesCost left + entriesCost right := by
  rw [entriesCost, List.map_append, List.sum_append]
  rfl

theorem entriesCost_drop (entries : List LogEntry) (count : Nat) :
    entriesCost (entries.drop count) ≤ entriesCost entries := by
  have whole := entriesCost_append (entries.take count) (entries.drop count)
  rw [List.take_append_drop] at whole
  omega

theorem length_entriesCost (entries : List LogEntry) : 29 * entries.length ≤ entriesCost entries := by
  induction entries with
  | nil => exact Nat.le_refl _
  | cons entry rest ih =>
      have each : 28 ≤ entry.wireSize := by
        rw [LogEntry.wireSize]
        omega
      simp only [entriesCost, List.map_cons, List.sum_cons, List.length_cons] at ih ⊢
      omega

theorem entriesSize_cost (entries : List LogEntry) :
    entriesSize entries = if entries = [] then 4 else entriesCost entries + 1 := by
  have total : entriesCost entries = (entries.map LogEntry.wireSize).sum + entries.length := by
    induction entries with
    | nil => rfl
    | cons entry rest ih =>
        simp only [entriesCost, List.map_cons, List.sum_cons, List.length_cons] at ih ⊢
        omega
  rw [entriesSize, total]

theorem wireSize_mono {early late : LogEntry} (index : early.index ≤ late.index)
    (term : early.term ≤ late.term) (kind : early.kind = late.kind)
    (command : early.command = late.command) : early.wireSize ≤ late.wireSize := by
  have first := digits_mono index
  have second := digits_mono term
  simp only [LogEntry.wireSize, kind, command]
  omega

theorem voteRequest_length (req : RequestVoteRequest) : req.body.length =
    112 + digits req.protocolVersion + size (string req.clusterID) +
      size (string req.sourceNodeID) + digits req.term + size (string req.candidateID) +
      digits req.lastLogIndex + digits req.lastLogTerm := by
  have names : (["protocol_version", "cluster_id", "source_node_id", "term", "candidate_id",
      "last_log_index", "last_log_term"].map fun name => size name.toList) =
        [16, 10, 14, 4, 12, 14, 13] := by decide +kernel
  simp only [List.map_cons, List.map_nil, List.cons.injEq, and_true] at names
  have text : req.json = object [field "protocol_version" (number req.protocolVersion),
      field "cluster_id" (string req.clusterID), field "source_node_id" (string req.sourceNodeID),
      field "term" (number req.term), field "candidate_id" (string req.candidateID),
      field "last_log_index" (number req.lastLogIndex),
      field "last_log_term" (number req.lastLogTerm)] := by
    simp only [RequestVoteRequest.json, Json.Format.json, Json.Format.entries, voteRequestFormat,
      Json.Column.of, Json.Column.typed, List.filter_cons_of_pos, List.filter_nil, List.map_cons,
      List.map_nil, Json.Column.entry, Json.Entry.field, Json.Form.string, Json.Form.natural]
  rw [RequestVoteRequest.body, bytesOf, size_encoded, text, size_object]
  simp only [size_field, names, List.map_cons, List.map_nil, List.sum_cons, List.sum_nil,
    List.length_cons, List.length_nil]
  unfold digits
  omega

end Sizes

section Arriving

/-- Every node that accepts the source lets the request through to its handler. -/
def Request.Arrives : Request → Prop
  | .vote req => ∀ h : InternalRaftHandler, req.sourceNodeID ∈ h.allowed →
      h.serve voteRequestFormat.read (·.sourceNodeID) (post h.clusterToken req.body) = .handled req
  | .append req => ∀ h : InternalRaftHandler, req.sourceNodeID ∈ h.allowed →
      h.serve appendRequestFormat.read (·.sourceNodeID) (post h.clusterToken req.body) =
        .handled req

theorem arrives_vote {req : RequestVoteRequest} (sized : req.Sized)
    (fits : req.body.length ≤ maxInternalBody) : (Request.vote req).Arrives := by
  intro h known
  rw [serve_posted h _ (reads_voteRequest sized), if_neg (by simp), if_neg (by omega),
    if_neg (not_not.mpr known)]

theorem arrives_append {req : AppendEntriesRequest} (sized : req.Sized)
    (fits : req.body.length ≤ maxInternalBody) : (Request.append req).Arrives := by
  intro h known
  rw [serve_posted h _ (reads_appendRequest sized), if_neg (by simp), if_neg (by omega),
    if_neg (not_not.mpr known)]

/-- Commands of one kind are asked for, and requests go over HTTP. -/
def overHTTP (asks : List UInt8 → Prop) : Traffic := ⟨asks, Request.Arrives⟩

/-- A request as large as any that a node with the log sends in terms up to `top + 1`,
once the command was proposed to it. -/
def largestRequest (clusterID id : String) (top : Nat) (log : List LogEntry)
    (command : List UInt8) : AppendEntriesRequest where
  protocolVersion := protocolVersion
  clusterID := clusterID
  sourceNodeID := id
  term := top + 1
  leaderID := id
  prevLogIndex := log.length + 2
  prevLogTerm := top + 1
  entries := proposedTo (ledFrom log (top + 1)) (top + 1) command
  leaderCommit := log.length + 2

/-- The log has no more in it than the largest request has. -/
structure Contained (top : Nat) (log : List LogEntry) (command : List UInt8)
    (held : List LogEntry) : Prop where
  length : held.length ≤ log.length + 2
  cost : entriesCost held ≤ entriesCost (proposedTo (ledFrom log (top + 1)) (top + 1) command)
  numbered : ∀ entry ∈ held, entry.index ≤ log.length + 2
  terms : ∀ entry ∈ held, entry.term ≤ top + 1

variable {clusterID id : String} {top : Nat} {log held : List LogEntry} {command : List UInt8}

theorem largest_cost (top : Nat) (log : List LogEntry) (command : List UInt8) : 29 * (log.length + 2) ≤
    entriesCost (proposedTo (ledFrom log (top + 1)) (top + 1) command) := by
  have count := length_entriesCost (proposedTo (ledFrom log (top + 1)) (top + 1) command)
  have length : (proposedTo (ledFrom log (top + 1)) (top + 1) command).length = log.length + 2 := by
    simp [proposedTo, ledFrom]
  rw [length] at count
  exact count

theorem largest_length : (largestRequest clusterID id top log command).body.length =
    138 + digits protocolVersion + size (string clusterID) + 2 * size (string id) +
      2 * digits (top + 1) + 2 * digits (log.length + 2) +
      entriesCost (proposedTo (ledFrom log (top + 1)) (top + 1) command) := by
  have filled : proposedTo (ledFrom log (top + 1)) (top + 1) command ≠ [] := by
    simp [proposedTo]
  rw [body_length, AppendEntriesRequest.wireSize]
  simp only [largestRequest, entriesSize_cost, if_neg filled]
  omega

theorem contained_sends (contained : Contained top log command held)
    (fits : (largestRequest clusterID id top log command).body.length ≤ maxInternalBody)
    (bounded : top + 1 < 2 ^ 64) {req : Request} (sends : Sends clusterID id (top + 1) held req) :
    req.Arrives := by
  have short := contained.length
  have cost := contained.cost
  have long := largest_cost top log command
  have small : maxInternalBody < 2 ^ 64 := by decide
  rw [largest_length] at fits
  cases sends with
  | vote req version cluster source candidate term lastIndex lastTerm =>
      have termDigits := digits_mono term
      have lastTermDigits := digits_mono lastTerm
      have indexDigits : digits req.lastLogIndex ≤ digits (log.length + 2) :=
        digits_mono (by omega)
      apply arrives_vote
      · exact ⟨by rw [version]; decide, by omega, by omega, by omega⟩
      · rw [voteRequest_length, version, cluster, source, candidate]
        omega
  | append req version cluster source leader term previous prevTerm entries commit =>
      have termDigits := digits_mono term
      have prevTermDigits := digits_mono prevTerm
      have previousDigits : digits req.prevLogIndex ≤ digits (log.length + 2) :=
        digits_mono (by omega)
      have commitDigits : digits req.leaderCommit ≤ digits (log.length + 2) :=
        digits_mono (by omega)
      have dropped := entriesCost_drop held req.prevLogIndex
      apply arrives_append
      · refine ⟨by rw [version]; decide, by omega, by omega, by omega, ?_, by omega⟩
        intro entry member
        rw [entries] at member
        have inside := List.mem_of_mem_drop member
        have index := contained.numbered entry inside
        have within := contained.terms entry inside
        exact ⟨by omega, by omega⟩
      · rw [body_length, AppendEntriesRequest.wireSize, version, cluster, source, leader, entries,
          entriesSize_cost]
        split <;> omega

theorem contained_proposed (numbered : ∀ entry ∈ log, entry.index ≤ log.length)
    (terms : ∀ entry ∈ log, entry.term ≤ top) {term : Nat} (below : term ≤ top) :
    Contained top log command (proposedTo log term command) := by
  refine ⟨?_, ?_, ?_, ?_⟩
  · simp [proposedTo]
  · have larger : LogEntry.wireSize ⟨log.length + 1, term, .command, command⟩ ≤
        LogEntry.wireSize ⟨log.length + 1 + 1, top + 1, .command, command⟩ :=
      wireSize_mono (by simp) (by change term ≤ top + 1; omega) rfl rfl
    simp only [proposedTo, ledFrom, entriesCost_append, List.length_append, List.length_singleton]
    simp only [entriesCost, List.map_cons, List.map_nil, List.sum_cons, List.sum_nil]
    omega
  · intro entry member
    rcases List.mem_append.mp member with old | new
    · exact (numbered entry old).trans (Nat.le_add_right _ _)
    · rw [List.mem_singleton.mp new]
      exact Nat.le_succ _
  · intro entry member
    rcases List.mem_append.mp member with old | new
    · exact (terms entry old).trans (Nat.le_succ _)
    · rw [List.mem_singleton.mp new]
      exact Nat.le_succ_of_le below

theorem contained_elected (numbered : ∀ entry ∈ log, entry.index ≤ log.length)
    (terms : ∀ entry ∈ log, entry.term ≤ top) :
    Contained top log command (proposedTo (ledFrom log (top + 1)) (top + 1) command) := by
  refine ⟨by simp [proposedTo, ledFrom], Nat.le_refl _, ?_, ?_⟩ <;> intro entry member
  · simp only [proposedTo, ledFrom, List.mem_append, List.mem_singleton] at member
    rcases member with (old | rfl) | rfl
    · exact (numbered entry old).trans (Nat.le_add_right _ _)
    · exact Nat.le_succ _
    · simp
  · simp only [proposedTo, ledFrom, List.mem_append, List.mem_singleton] at member
    rcases member with (old | rfl) | rfl
    · exact (terms entry old).trans (Nat.le_succ _)
    · exact Nat.le_refl _
    · exact Nat.le_refl _

theorem contained_prefix (contained : Contained top log command held) {short : List LogEntry}
    (begins : short <+: held) : Contained top log command short := by
  obtain ⟨rest, rfl⟩ := begins
  have cost := contained.cost
  have length := contained.length
  rw [entriesCost_append] at cost
  rw [List.length_append] at length
  exact ⟨by omega, by omega, fun entry member => contained.numbered entry
    (List.mem_append_left _ member), fun entry member => contained.terms entry
    (List.mem_append_left _ member)⟩

theorem room_overHTTP (asks : List UInt8 → Prop) (numbered : ∀ entry ∈ log, entry.index ≤ log.length)
    (terms : ∀ entry ∈ log, entry.term ≤ top) (bounded : top + 1 < 2 ^ 64)
    (fits : (largestRequest clusterID id top log command).body.length ≤ maxInternalBody) :
    (overHTTP asks).Room clusterID id top command log := by
  have arrives (held : List LogEntry) (contained : Contained top log command held) :
      (overHTTP asks).Fits clusterID id (top + 1) held :=
    fun _ sends => contained_sends contained fits bounded sends
  refine ⟨arrives _ ?_, fun term below => arrives _ ?_, arrives _ ?_⟩
  · exact contained_prefix (contained_proposed numbered terms (Nat.le_refl top))
      (List.prefix_append _ _)
  · exact contained_proposed numbered terms below
  · exact contained_elected numbered terms

end Arriving

section Returning

/-- The entries on disk, without the sentinel. -/
def World.storedLog (w : World σ ρ) (id : String) : List LogEntry :=
  (w.members id).store.entries 1 (w.members id).store.lastIndex

theorem storedLog_eq {w : World σ ρ} {id : String} {log : List LogEntry}
    (stores : StoresLog (w.members id).store.log log) : w.storedLog id = log := by
  rw [World.storedLog, storesLog_entries stores 1 _ (Nat.le_refl 1), storesLog_lastIndex stores,
    Nat.sub_self, List.drop_zero, Nat.add_sub_cancel, List.take_length]

/-- The cluster does not get stuck as long as its logs can still be sent. Whatever messages
were lost, whichever nodes crashed or led and whatever their logs have come to hold, if
the state machine gets through the commands that were asked for and, for every node,
the largest request it may have to send is within the cap, there is a way on in which no
store call fails, every request that is delivered gets through the peer's endpoint, and a
new call with any such command returns its result. -/
theorem call_can_return (c : Cluster σ ρ) (good : List UInt8 → Prop) (applies : Applies c good)
    (clustered : c.clusterID ≠ "") (several : 2 ≤ c.ids.length) (w : World σ ρ)
    (serving : Serving c good w) (command : List UInt8) (wanted : good command) (top : Nat)
    (terms : ∀ id ∈ c.ids, (w.members id).store.currentTerm ≤ top) (bounded : top + 1 < 2 ^ 64)
    (fits : ∀ id ∈ c.ids, (largestRequest c.clusterID id top (w.storedLog id) command).body.length ≤
      maxInternalBody) :
    ∃ u k entry result, c.Calmly (overHTTP good) w u ∧ w.proposals.length ≤ k ∧
      entry.command = command ∧ u.Returned k entry result := by
  have room : ∀ id ∈ c.ids, ∀ log, StoresLog (w.members id).store.log log →
      (overHTTP good).Room c.clusterID id top command log := by
    intro id listed log stores
    obtain ⟨g, counted, valid⟩ := replicated_reachable serving.reachable
    obtain rfl := storesLog_unique stores (valid.logs.stores id)
    have written := fits id listed
    rw [storedLog_eq stores] at written
    refine room_overHTTP good ?_ ?_ bounded written
    · intro entry member
      obtain ⟨position, found⟩ := List.mem_iff_getElem?.mp member
      have inside := (List.getElem?_eq_some_iff.mp found).1
      rw [stores.indexed position entry found]
      omega
    · intro entry member
      have known := valid.logs.sound.log_term id entry member
      rw [valid.votes.term id] at known
      exact known.trans (terms id listed)
  exact calmly_returned applies clustered several serving wanted top terms room

/-- The leader stored a command that nobody else has and every node went down. -/
theorem call_can_return_tally : ∃ w u k entry result, tally.Reachable Plan.clean w ∧
    w.entry "a" 2 = some ⟨2, 1, .command, [7]⟩ ∧
    (∀ id ∈ tally.ids, (w.members id).node.isNone) ∧
    tally.Calmly (overHTTP fun _ => True) w u ∧ 1 ≤ k ∧ entry.command = [8] ∧
    u.Returned k entry result := by
  obtain ⟨w, ran, seen⟩ := Option.map_eq_some_iff.mp
    (by decide +kernel : (tally.steps tally.init
        (smoothly (electFirst ++ [.propose "a" [7], .crash "a", .crash "b"]))).map (fun w =>
      (w.entry "a" 2, tally.ids.all fun id => (w.members id).node.isNone, w.proposals.length,
        tally.ids.all fun id => decide ((w.members id).store.currentTerm ≤ 1 ∧
          (largestRequest tally.clusterID id 1 (w.storedLog id) [8]).wireSize ≤ maxInternalBody))) =
      some (some ⟨2, 1, .command, [7]⟩, true, 1, true))
  simp only [Prod.mk.injEq, List.all_eq_true, decide_eq_true_eq] at seen
  obtain ⟨stored, down, one, fits⟩ := seen
  have reachable : tally.Reachable Plan.clean w := smoothly_later tally _ _ w smooth_clean ran
  obtain ⟨u, k, entry, result, run, new, asked, returned⟩ := call_can_return tally _ tally_applies
    (by decide) (by decide) w ⟨reachable, fun _ _ _ _ => trivial⟩ [8] trivial 1
    (fun id listed => (fits id listed).1) (by decide)
    fun id listed => (body_length _).trans_le (fits id listed).2
  exact ⟨w, u, k, entry, result, reachable, stored, down, run, one ▸ new, asked, returned⟩

end Returning

end QuorumLimiter
