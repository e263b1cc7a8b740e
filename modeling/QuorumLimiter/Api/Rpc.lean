import QuorumLimiter.Api.InternalRaft
import QuorumLimiter.Lib.JsonFormat

/-!
An RPC as it goes over HTTP: the request in JSON, the endpoint of the peer, the answer in
JSON. The peer is called with the request as it was, and the sender gets the answer as
it was; or the request is refused, and the peer is not called at all.
-/

namespace QuorumLimiter

open JsonText
open Json (Form Column Format utf8)

section Formats

/-- Another kind is not in the model. -/
def EntryKind.ofText : String → Option EntryKind
  | "sentinel" => some .sentinel
  | "noop" => some .noop
  | "command" => some .command
  | _ => none

structure LogEntry.Sized (entry : LogEntry) : Prop where
  index : entry.index < 2 ^ 64
  term : entry.term < 2 ^ 64

def entryFormat : Format LogEntry LogEntry.Sized where
  zero := ⟨0, 0, .sentinel, []⟩
  columns :=
    [.typed "index" (.natural 64) (·.index) (fun v e => { e with index := v })
        fun _ sized => sized.index,
      .typed "term" (.natural 64) (·.term) (fun v e => { e with term := v })
        fun _ sized => sized.term,
      .typed "kind" (.named .sentinel EntryKind.text EntryKind.ofText) (·.kind)
        (fun v e => { e with kind := v }) fun entry _ => by cases entry.kind <;> rfl,
      (Column.of "command" .bytes (·.command) fun v e => { e with command := v }).onlyIf
        fun entry => !entry.command.isEmpty]
  plain := by decide +kernel
  distinct := by decide
  shallow := by decide
  builds entry _ := by
    obtain ⟨index, term, kind, command⟩ := entry
    repeat
      refine .cons rfl rfl ?_
      dsimp only [Column.of, Column.typed]
    cases command with
    | nil => exact .skip rfl .nil
    | cons byte rest => exact .cons rfl rfl .nil

structure RequestVoteRequest.Sized (req : RequestVoteRequest) : Prop where
  protocolVersion : req.protocolVersion < 2 ^ 63
  term : req.term < 2 ^ 64
  lastLogIndex : req.lastLogIndex < 2 ^ 64
  lastLogTerm : req.lastLogTerm < 2 ^ 64

def voteRequestFormat : Format RequestVoteRequest RequestVoteRequest.Sized where
  zero := ⟨0, "", "", 0, "", 0, 0⟩
  columns :=
    [.typed "protocol_version" (.natural 63) (·.protocolVersion)
        (fun v r => { r with protocolVersion := v }) fun _ sized => sized.protocolVersion,
      .of "cluster_id" .string (·.clusterID) fun v r => { r with clusterID := v },
      .of "source_node_id" .string (·.sourceNodeID) fun v r => { r with sourceNodeID := v },
      .typed "term" (.natural 64) (·.term) (fun v r => { r with term := v })
        fun _ sized => sized.term,
      .of "candidate_id" .string (·.candidateID) fun v r => { r with candidateID := v },
      .typed "last_log_index" (.natural 64) (·.lastLogIndex)
        (fun v r => { r with lastLogIndex := v }) fun _ sized => sized.lastLogIndex,
      .typed "last_log_term" (.natural 64) (·.lastLogTerm)
        (fun v r => { r with lastLogTerm := v }) fun _ sized => sized.lastLogTerm]
  plain := by decide +kernel
  distinct := by decide
  shallow := by decide
  builds _ _ := by
    repeat
      refine .cons rfl rfl ?_
      dsimp only [Column.of, Column.typed]
    exact .nil

structure AppendEntriesRequest.Sized (req : AppendEntriesRequest) : Prop where
  protocolVersion : req.protocolVersion < 2 ^ 63
  term : req.term < 2 ^ 64
  prevLogIndex : req.prevLogIndex < 2 ^ 64
  prevLogTerm : req.prevLogTerm < 2 ^ 64
  entries : ∀ entry ∈ req.entries, entry.Sized
  leaderCommit : req.leaderCommit < 2 ^ 64

def appendRequestFormat : Format AppendEntriesRequest AppendEntriesRequest.Sized where
  zero := ⟨0, "", "", 0, "", 0, 0, [], 0⟩
  columns :=
    [.typed "protocol_version" (.natural 63) (·.protocolVersion)
        (fun v r => { r with protocolVersion := v }) fun _ sized => sized.protocolVersion,
      .of "cluster_id" .string (·.clusterID) fun v r => { r with clusterID := v },
      .of "source_node_id" .string (·.sourceNodeID) fun v r => { r with sourceNodeID := v },
      .typed "term" (.natural 64) (·.term) (fun v r => { r with term := v })
        fun _ sized => sized.term,
      .of "leader_id" .string (·.leaderID) fun v r => { r with leaderID := v },
      .typed "prev_log_index" (.natural 64) (·.prevLogIndex)
        (fun v r => { r with prevLogIndex := v }) fun _ sized => sized.prevLogIndex,
      .typed "prev_log_term" (.natural 64) (·.prevLogTerm)
        (fun v r => { r with prevLogTerm := v }) fun _ sized => sized.prevLogTerm,
      .typed "entries" entryFormat.form.list (·.entries) (fun v r => { r with entries := v })
        fun _ sized => sized.entries,
      .typed "leader_commit" (.natural 64) (·.leaderCommit)
        (fun v r => { r with leaderCommit := v }) fun _ sized => sized.leaderCommit]
  plain := by decide +kernel
  distinct := by decide
  shallow := by decide
  builds _ _ := by
    repeat
      refine .cons rfl rfl ?_
      dsimp only [Column.of, Column.typed]
    exact .nil

structure RequestVoteResponse.Sized (resp : RequestVoteResponse) : Prop where
  protocolVersion : resp.protocolVersion < 2 ^ 63
  term : resp.term < 2 ^ 64

def voteResponseFormat : Format RequestVoteResponse RequestVoteResponse.Sized where
  zero := ⟨0, "", 0, false⟩
  columns :=
    [.typed "protocol_version" (.natural 63) (·.protocolVersion)
        (fun v r => { r with protocolVersion := v }) fun _ sized => sized.protocolVersion,
      .of "source_node_id" .string (·.sourceNodeID) fun v r => { r with sourceNodeID := v },
      .typed "term" (.natural 64) (·.term) (fun v r => { r with term := v })
        fun _ sized => sized.term,
      .of "vote_granted" .bool (·.voteGranted) fun v r => { r with voteGranted := v }]
  plain := by decide +kernel
  distinct := by decide
  shallow := by decide
  builds _ _ := by
    repeat
      refine .cons rfl rfl ?_
      dsimp only [Column.of, Column.typed]
    exact .nil

structure AppendEntriesResponse.Sized (resp : AppendEntriesResponse) : Prop where
  protocolVersion : resp.protocolVersion < 2 ^ 63
  term : resp.term < 2 ^ 64
  matchIndex : resp.matchIndex < 2 ^ 64
  conflictTerm : resp.conflictTerm < 2 ^ 64
  conflictIndex : resp.conflictIndex < 2 ^ 64

def appendResponseFormat : Format AppendEntriesResponse AppendEntriesResponse.Sized where
  zero := ⟨0, "", 0, false, 0, 0, 0⟩
  columns :=
    [.typed "protocol_version" (.natural 63) (·.protocolVersion)
        (fun v r => { r with protocolVersion := v }) fun _ sized => sized.protocolVersion,
      .of "source_node_id" .string (·.sourceNodeID) fun v r => { r with sourceNodeID := v },
      .typed "term" (.natural 64) (·.term) (fun v r => { r with term := v })
        fun _ sized => sized.term,
      .of "success" .bool (·.success) fun v r => { r with success := v },
      .typed "match_index" (.natural 64) (·.matchIndex) (fun v r => { r with matchIndex := v })
        fun _ sized => sized.matchIndex,
      .typed "conflict_term" (.natural 64) (·.conflictTerm)
        (fun v r => { r with conflictTerm := v }) fun _ sized => sized.conflictTerm,
      .typed "conflict_index" (.natural 64) (·.conflictIndex)
        (fun v r => { r with conflictIndex := v }) fun _ sized => sized.conflictIndex]
  plain := by decide +kernel
  distinct := by decide
  shallow := by decide
  builds _ _ := by
    repeat
      refine .cons rfl rfl ?_
      dsimp only [Column.of, Column.typed]
    exact .nil

end Formats

section Texts

def RequestVoteRequest.json (req : RequestVoteRequest) : List Char := voteRequestFormat.json req

def RequestVoteRequest.body (req : RequestVoteRequest) : Bytes := bytesOf (String.ofList req.json)

theorem entry_json (entry : LogEntry) : entryFormat.json entry = entry.json := by
  obtain ⟨index, term, kind, command⟩ := entry
  cases command with
  | nil =>
      simp [LogEntry.json, Format.json, Format.entries, entryFormat, Column.of, Column.typed,
        Column.onlyIf, Column.entry, Json.Entry.field, Form.natural, Form.named, Form.bytes]
  | cons byte rest =>
      simp [LogEntry.json, Format.json, Format.entries, entryFormat, Column.of, Column.typed,
        Column.onlyIf, Column.entry, Json.Entry.field, Form.natural, Form.named, Form.bytes]

theorem appendRequest_json (req : AppendEntriesRequest) :
    appendRequestFormat.json req = req.json := by
  have entries : entryFormat.form.itemsText req.entries = entriesJson req.entries := by
    rw [Form.itemsText, entriesJson, show entryFormat.form.text = LogEntry.json from
      funext entry_json]
  simp only [AppendEntriesRequest.json, Format.json, Format.entries, appendRequestFormat, Column.of,
    Column.typed, List.filter_cons_of_pos, List.filter_nil, List.map_cons, List.map_nil,
    Column.entry, Json.Entry.field, Form.string, Form.natural, Form.list, entries]

theorem reads_voteRequest {req : RequestVoteRequest} (sized : req.Sized) :
    Reads voteRequestFormat.read req.body req := by
  rw [RequestVoteRequest.body, Limiter.bytesOf_ofList, RequestVoteRequest.json]
  exact voteRequestFormat.reads_json sized

theorem reads_appendRequest {req : AppendEntriesRequest} (sized : req.Sized) :
    Reads appendRequestFormat.read req.body req := by
  rw [AppendEntriesRequest.body, Limiter.bytesOf_ofList, ← appendRequest_json]
  exact appendRequestFormat.reads_json sized

end Texts

section Transport

variable {α β : Type} {valid : β → Prop}

def writeError (status : Nat) (code : String) : Nat × Bytes :=
  (status, utf8 (object [field "error" (object [field "code" (string code)])] ++ ['\n']))

/-- The status and the body that an RPC endpoint writes. A stopped node gives no answer. -/
def InternalRaftHandler.answer (h : InternalRaftHandler) (read : Bytes → Read α)
    (source : α → String) (node : α → Option β) (json : β → List Char) (r : HTTPRequest) :
    Nat × Bytes :=
  match h.serve read source r with
  | .refused status code => writeError status code
  | .handled req =>
      match node req with
      | none => writeError 503 "unavailable"
      | some resp => (200, utf8 (json resp ++ ['\n']))

/-- What `post` makes of an answer; `none` is an error. -/
def received (decode : Bytes → Option β) (answer : Nat × Bytes) : Option β :=
  if answer.1 ≠ 200 then none else decode answer.2

def sendRequestVote (clusterToken : String) (peer : InternalRaftHandler)
    (node : RequestVoteRequest → Option RequestVoteResponse) (req : RequestVoteRequest) :
    Option RequestVoteResponse :=
  received voteResponseFormat.first (peer.answer voteRequestFormat.read (·.sourceNodeID) node
    voteResponseFormat.json (post clusterToken req.body))

def sendAppendEntries (clusterToken : String) (peer : InternalRaftHandler)
    (node : AppendEntriesRequest → Option AppendEntriesResponse) (req : AppendEntriesRequest) :
    Option AppendEntriesResponse :=
  received appendResponseFormat.first (peer.answer appendRequestFormat.read (·.sourceNodeID) node
    appendResponseFormat.json (post clusterToken req.body))

theorem received_answer {read : Bytes → Read α} {body : Bytes} {req : α} (h : InternalRaftHandler)
    (source : α → String) (node : α → Option β) (format : Format β valid) (clusterToken : String)
    (reads : Reads read body req) (answers : ∀ resp, node req = some resp → valid resp) :
    received format.first (h.answer read source node format.json (post clusterToken body)) =
      if clusterToken = h.clusterToken ∧ body.length ≤ maxInternalBody ∧ source req ∈ h.allowed
      then node req else none := by
  rw [InternalRaftHandler.answer, serve_posted h source reads]
  by_cases trusted : clusterToken = h.clusterToken
  · rw [if_neg (not_not.mpr trusted)]
    by_cases fits : body.length ≤ maxInternalBody
    · rw [if_neg (Nat.not_lt.mpr fits)]
      by_cases known : source req ∈ h.allowed
      · rw [if_neg (not_not.mpr known), if_pos ⟨trusted, fits, known⟩]
        cases answered : node req with
        | none =>
            simp only [answered]
            rfl
        | some resp =>
            simp only [answered, received, Json.utf8_append]
            exact format.first_json (answers resp answered) _
      · rw [if_pos known, if_neg fun all => known all.2.2]
        rfl
    · rw [if_pos (Nat.lt_of_not_le fits), if_neg fun all => fits all.2.1]
      rfl
  · rw [if_pos trusted, if_neg fun all => trusted all.1]
    rfl

/-- An RPC over HTTP is a call of the peer's node with the very request, and its very
answer, if the two nodes share the token, the body is within the cap and the source is
allowed; otherwise it is an error. The JSON in between loses nothing. -/
theorem rpc_transparent (clusterToken : String) (peer : InternalRaftHandler)
    (vote : RequestVoteRequest → Option RequestVoteResponse)
    (append : AppendEntriesRequest → Option AppendEntriesResponse) :
    (∀ req : RequestVoteRequest, req.Sized → (∀ resp, vote req = some resp → resp.Sized) →
      sendRequestVote clusterToken peer vote req =
        if clusterToken = peer.clusterToken ∧ req.body.length ≤ maxInternalBody ∧
          req.sourceNodeID ∈ peer.allowed then vote req else none) ∧
    ∀ req : AppendEntriesRequest, req.Sized → (∀ resp, append req = some resp → resp.Sized) →
      sendAppendEntries clusterToken peer append req =
        if clusterToken = peer.clusterToken ∧ req.body.length ≤ maxInternalBody ∧
          req.sourceNodeID ∈ peer.allowed then append req else none := by
  refine ⟨fun req sized answers => ?_, fun req sized answers => ?_⟩
  · exact received_answer peer _ vote voteResponseFormat clusterToken (reads_voteRequest sized)
      answers
  · exact received_answer peer _ append appendResponseFormat clusterToken
      (reads_appendRequest sized) answers

def firstVote : RequestVoteRequest := ⟨1, "cluster", "a", 1, "a", 0, 0⟩

/-- The peer grants the vote to a node that has its token, and to no other. -/
theorem rpc_transparent_vote :
    sendRequestVote "token" ⟨"token", ["a"]⟩ (fun _ => some ⟨1, "b", 1, true⟩) firstVote =
        some ⟨1, "b", 1, true⟩ ∧
      sendRequestVote "other" ⟨"token", ["a"]⟩ (fun _ => some ⟨1, "b", 1, true⟩) firstVote =
        none := by
  have sized : firstVote.Sized := ⟨by decide, by decide, by decide, by decide⟩
  have sent (clusterToken : String) := (rpc_transparent clusterToken ⟨"token", ["a"]⟩
    (fun _ => some ⟨1, "b", 1, true⟩) fun _ => none).1 firstVote sized (by
      rintro resp ⟨⟩
      exact ⟨by decide, by decide⟩)
  refine ⟨(sent "token").trans (if_pos ⟨rfl, by decide +kernel, by decide⟩), ?_⟩
  exact (sent "other").trans (if_neg fun all => absurd all.1 (by decide))

end Transport

end QuorumLimiter
