import QuorumLimiter.Api.Admin
import QuorumLimiter.Raft.Cluster

/-!
AppendEntries over HTTP. The sender posts the whole suffix of its log from the
peer's next index in one JSON body; the receiver reads at most `maxInternalBody`
bytes of it. A request arrives exactly when it fits, and the suffix has no bound.
-/

namespace QuorumLimiter

open JsonText Limiter

section Receiving

def maxInternalBody : Nat := 65536

structure HTTPRequest where
  authorization : String
  contentType : String
  body : Bytes
  deriving DecidableEq, Repr

inductive DecodeError
  | unsupportedMedia
  | reading (error : ReadError)
  deriving DecidableEq, Repr

def decodeInternal {α : Type} (read : Bytes → Read α) (r : HTTPRequest) : Except DecodeError α :=
  if "application/json".toList <+: r.contentType.toList then
    (readLimited maxInternalBody read r.body).mapError .reading
  else .error .unsupportedMedia

/-- What an RPC endpoint does with a request: an error envelope, or a call of the
node. -/
inductive Served (α : Type)
  | refused (status : Nat) (code : String)
  | handled (req : α)
  deriving DecidableEq, Repr

def writeDecodeError {α : Type} : DecodeError → Served α
  | .unsupportedMedia => .refused 415 "unsupported_media_type"
  | .reading .tooLarge => .refused 413 "request_too_large"
  | .reading .invalid => .refused 400 "invalid_request"

structure InternalRaftHandler where
  clusterToken : String
  allowed : List String

def InternalRaftHandler.authorized (h : InternalRaftHandler) (r : HTTPRequest) : Bool :=
  r.authorization.toList = "Bearer ".toList ++ h.clusterToken.toList

/-- The two RPC endpoints, which differ in what they decode and whom they call. -/
def InternalRaftHandler.serve {α : Type} (h : InternalRaftHandler) (read : Bytes → Read α)
    (source : α → String) (r : HTTPRequest) : Served α :=
  if !h.authorized r then .refused 401 "unauthorized"
  else
    match decodeInternal read r with
    | .error error => writeDecodeError error
    | .ok req =>
        if source req ∉ h.allowed then .refused 403 "source_not_allowed" else .handled req

/-- The request `post` builds around its encoded argument. -/
def post (clusterToken : String) (body : Bytes) : HTTPRequest where
  authorization := "Bearer " ++ clusterToken
  contentType := "application/json"
  body := body

variable {α : Type} {read : Bytes → Read α} {body : Bytes} {req : α}

theorem decodeInternal_post (clusterToken : String) (reads : Reads read body req) :
    decodeInternal read (post clusterToken body) =
      if body.length ≤ maxInternalBody then .ok req else .error (.reading .tooLarge) := by
  have media : "application/json".toList <+: (post clusterToken body).contentType.toList :=
    List.prefix_refl _
  rw [decodeInternal, if_pos media, post, readLimited_eq maxInternalBody reads]
  split <;> rfl

theorem authorized_post (h : InternalRaftHandler) (clusterToken : String) (body : Bytes) :
    h.authorized (post clusterToken body) = true ↔ clusterToken = h.clusterToken := by
  simp [InternalRaftHandler.authorized, post, String.toList_inj]

/-- The checks of an endpoint in their order. -/
theorem serve_posted (h : InternalRaftHandler) (source : α → String) (reads : Reads read body req)
    (clusterToken : String) :
    h.serve read source (post clusterToken body) =
      if clusterToken ≠ h.clusterToken then .refused 401 "unauthorized"
      else if maxInternalBody < body.length then .refused 413 "request_too_large"
      else if source req ∉ h.allowed then .refused 403 "source_not_allowed"
      else .handled req := by
  rw [InternalRaftHandler.serve, decodeInternal_post clusterToken reads]
  by_cases trusted : clusterToken = h.clusterToken
  · rw [(authorized_post h clusterToken body).mpr trusted, if_neg (not_not.mpr trusted)]
    by_cases fits : body.length ≤ maxInternalBody
    · rw [if_pos fits, if_neg (Nat.not_lt.mpr fits)]
      rfl
    · rw [if_neg fits, if_pos (Nat.lt_of_not_le fits)]
      rfl
  · have refused : h.authorized (post clusterToken body) = false := by
      rw [Bool.eq_false_iff]
      exact fun allowed => trusted ((authorized_post h clusterToken body).mp allowed)
    rw [refused, if_pos trusted]
    rfl

end Receiving

section Encoding

def EntryKind.text : EntryKind → String
  | .sentinel => "sentinel"
  | .noop => "noop"
  | .command => "command"

/-- `json.Marshal` of an entry; an empty command is omitted. -/
def LogEntry.json (entry : LogEntry) : List Char :=
  object ([field "index" (number entry.index), field "term" (number entry.term),
      field "kind" (string entry.kind.text)] ++
    if entry.command = [] then []
    else [field "command" ('"' :: (base64 entry.command ++ ['"']))])

/-- A request without entries holds a nil slice. -/
def entriesJson (entries : List LogEntry) : List Char :=
  if entries = [] then "null".toList else array (entries.map LogEntry.json)

def AppendEntriesRequest.json (req : AppendEntriesRequest) : List Char :=
  object
    [field "protocol_version" (number req.protocolVersion),
      field "cluster_id" (string req.clusterID), field "source_node_id" (string req.sourceNodeID),
      field "term" (number req.term), field "leader_id" (string req.leaderID),
      field "prev_log_index" (number req.prevLogIndex),
      field "prev_log_term" (number req.prevLogTerm), field "entries" (entriesJson req.entries),
      field "leader_commit" (number req.leaderCommit)]

def AppendEntriesRequest.body (req : AppendEntriesRequest) : Bytes :=
  bytesOf (String.ofList req.json)

def digits (value : Nat) : Nat := size (number value)

def LogEntry.wireSize (entry : LogEntry) : Nat :=
  28 + digits entry.index + digits entry.term + entry.kind.text.length +
    if entry.command = [] then 0 else 13 + 4 * ((entry.command.length + 2) / 3)

def entriesSize (entries : List LogEntry) : Nat :=
  if entries = [] then 4 else (entries.map LogEntry.wireSize).sum + entries.length + 1

def AppendEntriesRequest.wireSize (req : AppendEntriesRequest) : Nat :=
  137 + digits req.protocolVersion + size (string req.clusterID) +
    size (string req.sourceNodeID) + digits req.term + size (string req.leaderID) +
    digits req.prevLogIndex + digits req.prevLogTerm + entriesSize req.entries +
    digits req.leaderCommit

theorem size_kind (kind : EntryKind) : size (string kind.text) = kind.text.length + 2 := by
  cases kind <;> decide +kernel

theorem size_entry (entry : LogEntry) : size entry.json = entry.wireSize := by
  have index : size "index".toList = 5 := by decide +kernel
  have term : size "term".toList = 4 := by decide +kernel
  have kind : size "kind".toList = 4 := by decide +kernel
  have command : size "command".toList = 7 := by decide +kernel
  unfold LogEntry.json LogEntry.wireSize digits
  split
  · simp only [size_object, size_field, size_kind, index, term, kind, List.append_nil,
      List.map_cons, List.map_nil, List.sum_cons, List.sum_nil, List.length_cons, List.length_nil]
    omega
  · simp only [size_object, size_field, size_kind, size_cons, size_append, size_base64, size_nil,
      index, term, kind, command, show ('"').utf8Size = 1 from rfl, List.cons_append,
      List.nil_append, List.map_cons, List.map_nil, List.sum_cons, List.sum_nil,
      List.length_cons, List.length_nil]
    omega

theorem size_entries (entries : List LogEntry) : size (entriesJson entries) = entriesSize entries := by
  unfold entriesJson entriesSize
  split
  · decide +kernel
  · rename_i some
    have sizes : (entries.map LogEntry.json).map size = entries.map LogEntry.wireSize := by
      rw [List.map_map]
      exact List.map_congr_left fun entry _ => size_entry entry
    have positive := List.length_pos_iff.mpr some
    rw [size_array, sizes, List.length_map]
    omega

theorem body_length (req : AppendEntriesRequest) : req.body.length = req.wireSize := by
  have names : (["protocol_version", "cluster_id", "source_node_id", "term", "leader_id",
      "prev_log_index", "prev_log_term", "entries", "leader_commit"].map
        fun name => size name.toList) = [16, 10, 14, 4, 9, 14, 13, 7, 13] := by decide +kernel
  simp only [List.map_cons, List.map_nil, List.cons.injEq, and_true] at names
  rw [AppendEntriesRequest.body, bytesOf, size_encoded, AppendEntriesRequest.json, size_object]
  simp only [size_field, size_entries, names, List.map_cons, List.map_nil, List.sum_cons,
    List.sum_nil, List.length_cons, List.length_nil]
  unfold AppendEntriesRequest.wireSize digits
  omega

end Encoding

section Sending

variable {σ ρ : Type}

def Local.suffixFor (s : Local σ ρ) (peer : String) : List LogEntry :=
  if s.node.nextFor peer ≤ s.node.lastLogIndex then
    s.store.entries (s.node.nextFor peer) s.node.lastLogIndex
  else []

def Node.envelopeSize (n : Node) (peer : String) (prevTerm : Nat) : Nat :=
  137 + digits protocolVersion + size (string n.clusterID) + 2 * size (string n.id) +
    digits n.currentTerm + digits (n.nextFor peer - 1) + digits prevTerm + digits n.commitIndex

theorem wireSize_appendRequest (n : Node) (peer : String) (prevTerm : Nat)
    (entries : List LogEntry) : (n.appendRequest peer prevTerm entries).wireSize =
      n.envelopeSize peer prevTerm + entriesSize entries := by
  simp only [AppendEntriesRequest.wireSize, Node.appendRequest, Node.envelopeSize]
  omega

theorem termAt_reads (s : Local σ ρ) (index : Nat) (plan : Plan) (trail : List StoreOp) :
    Proc.wp (termAt index) plan
      (fun term _ after => after = s ∧
        (term = s.store.termBefore index ∨ plan.mayFail .entry ∧ term = 0))
      (fun after => after = s) trail s := by
  unfold termAt
  split
  · rename_i positive
    rw [Proc.wp_bind]
    refine Proc.wp_read plan _ trail s .entry _ _ (fun _ => ?_) (fun failed => ?_) (fun _ => rfl)
    · dsimp only
      cases found : s.store.entry index with
      | none => exact ⟨rfl, Or.inl (by simp [Store.termBefore, found])⟩
      | some entry => exact ⟨rfl, Or.inl (by simp [Store.termBefore, found, positive])⟩
    · exact ⟨rfl, Or.inr ⟨⟨_, failed⟩, rfl⟩⟩
  · rename_i zero
    exact ⟨rfl, Or.inl (by simp [Store.termBefore, zero])⟩

theorem entriesFrom_reads (s : Local σ ρ) (next last : Nat) (plan : Plan) (trail : List StoreOp) :
    Proc.wp (entriesFrom next last) plan
      (fun result _ after => after = s ∧ ∀ entries, result = .ok entries →
        entries = if next ≤ last then s.store.entries next last else [])
      (fun after => after = s) trail s := by
  unfold entriesFrom
  split
  · refine Proc.wp_read plan _ trail s .entries _ _ (fun _ => ?_) (fun _ => ?_) (fun _ => rfl)
    · exact ⟨rfl, fun entries found => by cases found; rfl⟩
    · exact ⟨rfl, fun entries found => by cases found⟩
  · exact ⟨rfl, fun entries found => by cases found; rfl⟩

theorem replicateToPeer_sends (s : Local σ ρ) (peer : String) (plan : Plan) (trail : List StoreOp) :
    Proc.wp (replicateToPeer peer) plan
      (fun _ _ after => after = s ∨ ∃ prevTerm,
        (prevTerm = s.store.termBefore (s.node.nextFor peer - 1) ∨ plan.mayFail .entry ∧ prevTerm = 0) ∧
        after = s.send s.node.currentTerm
          (.append (s.node.appendRequest peer prevTerm (s.suffixFor peer))) [peer])
      (fun after => after = s) trail s := by
  -- Whatever store reads fail, the request that leaves holds the whole suffix.
  unfold replicateToPeer
  rw [Proc.wp_bind, Proc.wp_get]
  dsimp only
  split
  · exact Or.inl rfl
  · rw [Proc.wp_bind]
    apply Proc.wp_mono _ _ _ _ _ _ _ _ (termAt_reads s _ plan trail) _ (fun _ same => same)
    rintro prevTerm trail _ ⟨rfl, previous⟩
    rw [Proc.wp_bind]
    apply Proc.wp_mono _ _ _ _ _ _ _ _ (entriesFrom_reads _ _ _ plan trail) _ (fun _ same => same)
    rintro result trail _ ⟨rfl, read⟩
    cases result with
    | error error => exact Or.inl rfl
    | ok entries =>
        rw [read entries rfl]
        exact Or.inr ⟨prevTerm, previous, rfl⟩

/-- A request that `replicateToPeer` sends is decoded by its peer exactly when the
suffix of the log, in base64 and JSON, is within the cap. -/
theorem append_decoded_iff (s : Local σ ρ) (peer : String) (plan : Plan) (trail : List StoreOp)
    (call : Call)
    (sent : ((replicateToPeer peer).run plan trail s).2.2.calls = s.calls ++ [call]) :
    ∃ prevTerm,
      (prevTerm = s.store.termBefore (s.node.nextFor peer - 1) ∨ plan.mayFail .entry ∧ prevTerm = 0) ∧
      ∃ req, req = s.node.appendRequest peer prevTerm (s.suffixFor peer) ∧
        call = ⟨s.node.id, peer, s.node.currentTerm, .append req⟩ ∧
        ∀ read clusterToken, Reads read req.body req →
          (decodeInternal read (post clusterToken req.body) = .ok req ↔
            s.node.envelopeSize peer prevTerm + entriesSize (s.suffixFor peer) ≤
              maxInternalBody) := by
  have ran := replicateToPeer_sends s peer plan trail
  unfold Proc.wp at ran
  generalize (replicateToPeer peer).run plan trail s = outcome at ran sent
  obtain ⟨_ | _, _, after⟩ := outcome
  · simp [show after = s from ran] at sent
  · rcases ran with rfl | ⟨prevTerm, previous, rfl⟩
    · simp at sent
    · simp only [Local.send, List.map_cons, List.map_nil, List.append_cancel_left_eq,
        List.cons.injEq, and_true] at sent
      refine ⟨prevTerm, previous, _, rfl, sent.symm, ?_⟩
      intro read clusterToken reads
      rw [decodeInternal_post clusterToken reads, body_length, wireSize_appendRequest]
      split_ifs with fits <;> simp [fits]

theorem append_decoded_iff_trio :
    ∃ w node req, trio.Reachable Plan.clean w ∧ (w.members "a").node = some node ∧
      ((replicateToPeer "b").run Plan.smooth [] (w.view "a" node)).2.2.calls =
        w.calls ++ [⟨"a", "b", 1, .append req⟩] ∧
      decodeInternal (decoderOf req.body req) (post "token" req.body) = .ok req := by
  obtain ⟨w, ran, seen⟩ := Option.map_eq_some_iff.mp
    (show ((trio.steps trio.init (smoothly electFirst)).map fun w =>
        (w.members "a").node.map fun node => decide
          (((replicateToPeer "b").run Plan.smooth [] (w.view "a" node)).2.2.calls = w.calls ++
            [⟨"a", "b", 1, .append ⟨1, "trio", "a", 1, "a", 0, 0, [⟨1, 1, .noop, []⟩], 0⟩⟩])) =
      some (some true) by decide +kernel)
  obtain ⟨node, running, sent⟩ := Option.map_eq_some_iff.mp seen
  replace sent := of_decide_eq_true sent
  obtain ⟨prevTerm, _, req, built, same, decoded⟩ :=
    append_decoded_iff (w.view "a" node) "b" _ _ _ sent
  simp only [Call.mk.injEq, Request.append.injEq] at same
  obtain ⟨-, -, -, rfl⟩ := same
  refine ⟨w, node, _, smoothly_later trio electFirst _ w smooth_clean ran, running, sent, ?_⟩
  apply (decoded _ "token" (decoderOf_reads _ _)).mpr
  rw [← wireSize_appendRequest, ← built]
  decide +kernel

end Sending

section Refusal

def longPolicy (count : Nat) : CreatePolicyPayload where
  id := "bulk"
  name := String.ofList (List.replicate count 'a')
  capacityTokens := 100
  refillTokens := 10
  refillIntervalMS := 1000
  maxCostTokens := 10
  active := true

def longCommand (count : Nat) : Bytes :=
  encodeCommand "acmd_0123456789abcdef01234567" .createPolicy 1700000000000 (longPolicy count).json

def longRequest (command : Bytes) : AppendEntriesRequest :=
  ⟨1, "trio", "a", 1, "a", 0, 0, [⟨1, 1, .noop, []⟩, ⟨2, 1, .command, command⟩], 0⟩

theorem size_longPolicy (count : Nat) : size (longPolicy count).json = 125 + count := by
  have name : size (string (longPolicy count).name) = count * 1 + 2 :=
    size_string_replicate count 'a' (by decide +kernel)
  have others : [field "id" (string "bulk"), field "capacity_tokens" (integer 100),
      field "refill_tokens" (integer 10), field "refill_interval_ms" (integer 1000),
      field "max_cost_tokens" (integer 10), field "active" (boolean true)].map size =
        [11, 21, 18, 25, 20, 13] := by decide +kernel
  have split : (longPolicy count).json = object ([field "id" (string "bulk")] ++
      (field "name" (string (longPolicy count).name) :: [field "capacity_tokens" (integer 100),
      field "refill_tokens" (integer 10), field "refill_interval_ms" (integer 1000),
      field "max_cost_tokens" (integer 10), field "active" (boolean true)])) := createPolicy_json _
  simp only [List.map_cons, List.map_nil, List.cons.injEq, and_true] at others
  rw [split, size_object]
  simp only [List.cons_append, List.nil_append, List.map_cons, List.map_nil, List.sum_cons,
    List.sum_nil, List.length_cons, List.length_nil, others, size_field "name", name,
    show size "name".toList = 4 by decide +kernel]
  omega

theorem length_longCommand (count : Nat) : (longCommand count).length = 245 + count := by
  have others : [field "schema_version" (number modelSchemaVersion.toNat),
      field "id" (string "acmd_0123456789abcdef01234567"),
      field "type" (string CommandType.createPolicy.text),
      field "timestamp_ms" (integer (1700000000000 : Int64).toInt)].map size =
        [18, 36, 22, 28] := by decide +kernel
  simp only [List.map_cons, List.map_nil, List.cons.injEq, and_true] at others
  rw [longCommand, encodeCommand, bytesOf, size_encoded, size_object]
  simp only [List.map_cons, List.map_nil, List.sum_cons, List.sum_nil, List.length_cons,
    List.length_nil, others, size_field "payload", size_longPolicy,
    show size "payload".toList = 7 by decide +kernel]
  omega

theorem proposed_long (command : Bytes) :
    ((trio.steps trio.init (smoothly (electFirst ++ [.propose "a" command]))).map
      fun w => w.calls[4]?) = some (some ⟨"a", "b", 1, .append (longRequest command)⟩) := rfl

theorem retried_long (command : Bytes) :
    (((trio.steps trio.init (smoothly (electFirst ++ [.propose "a" command]))).bind
      (trio.steps · (smoothly [.lose 4, .heartbeat "a"]))).map fun w => w.calls[6]?) =
        some (some ⟨"a", "b", 1, .append (longRequest command)⟩) := rfl

theorem longRequest_refused (count : Nat) (long : 49000 ≤ count) (h : InternalRaftHandler)
    (read : Bytes → Read AppendEntriesRequest)
    (reads : Reads read (longRequest (longCommand count)).body (longRequest (longCommand count))) :
    h.serve read (·.sourceNodeID) (post h.clusterToken (longRequest (longCommand count)).body) =
      .refused 413 "request_too_large" := by
  have filled : longCommand count ≠ [] := by
    rw [← List.length_pos_iff, length_longCommand]
    omega
  have exceeds : ¬ (longRequest (longCommand count)).wireSize ≤ maxInternalBody := by
    simp only [AppendEntriesRequest.wireSize, entriesSize, longRequest, List.map_cons,
      List.sum_cons, LogEntry.wireSize, filled, if_false, length_longCommand, maxInternalBody,
      reduceCtorEq]
    omega
  rw [serve_posted h _ reads, body_length, if_neg (by simp), if_pos (Nat.lt_of_not_le exceeds)]

/-- A body of the admin API within its own cap becomes a command that no request can
carry: the leader's request to the second node is refused for its size, and the one
it builds after that holds the same entries. -/
theorem append_refused :
    ∃ body command, body.length ≤ maxDecisionBody ∧
      (∀ read, Reads read body (longPolicy 49000) → createPolicyCommand read
        "acmd_0123456789abcdef01234567" 1700000000000 body = .ok command) ∧
      ∃ w later req, trio.Reachable Plan.clean w ∧ trio.Later Plan.clean w later ∧
        w.calls[4]? = some ⟨"a", "b", 1, .append req⟩ ∧
        later.calls[6]? = some ⟨"a", "b", 1, .append req⟩ ∧
        req.entries = [⟨1, 1, .noop, []⟩, ⟨2, 1, .command, command⟩] ∧
        ∀ h : InternalRaftHandler, "a" ∈ h.allowed → ∀ read, Reads read req.body req →
          h.serve read (·.sourceNodeID) (post h.clusterToken req.body) =
            .refused 413 "request_too_large" := by
  obtain ⟨w, later, reached, after, sent, again⟩ := smoothly_reaches trio smooth_clean
    (electFirst ++ [.propose "a" (longCommand 49000)]) [.lose 4, .heartbeat "a"] _ _
    (proposed_long _) (retried_long _)
  have small : (bytesOf (String.ofList (longPolicy 49000).json)).length ≤ maxDecisionBody := by
    rw [bytesOf, size_encoded, size_longPolicy, maxDecisionBody]
    omega
  refine ⟨_, longCommand 49000, small, ?_, w, later, _, reached, after, sent, again, rfl, ?_⟩
  · intro read reads
    rw [createPolicyCommand, decodeAdminBody, readLimited_eq maxDecisionBody reads, if_pos small]
    rfl
  · intro h _ read reads
    exact longRequest_refused 49000 (Nat.le_refl _) h read reads

end Refusal

end QuorumLimiter
