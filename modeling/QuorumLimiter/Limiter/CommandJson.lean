import QuorumLimiter.Lib.JsonFormat
import QuorumLimiter.Limiter.Models

/-!
Commands as they are written into the log. `json.Marshal` writes a payload, the
envelope takes that text over as it stands, and every node gets the envelope and the
payload back from the bytes of the entry.
-/

namespace QuorumLimiter.Limiter

open JsonText
open Json (Form Column Format Writes utf8)

section Payloads

def createPolicyFormat : Format CreatePolicyPayload fun _ => True where
  zero := ⟨"", "", 0, 0, 0, 0, false⟩
  columns :=
    [.of "id" .string (·.id) fun v p => { p with id := v },
      .of "name" .string (·.name) fun v p => { p with name := v },
      .of "capacity_tokens" .int64 (·.capacityTokens) fun v p => { p with capacityTokens := v },
      .of "refill_tokens" .int64 (·.refillTokens) fun v p => { p with refillTokens := v },
      .of "refill_interval_ms" .int64 (·.refillIntervalMS) fun v p =>
        { p with refillIntervalMS := v },
      .of "max_cost_tokens" .int64 (·.maxCostTokens) fun v p => { p with maxCostTokens := v },
      .of "active" .bool (·.active) fun v p => { p with active := v }]
  plain := by decide +kernel
  distinct := by decide
  shallow := by decide
  builds _ _ := by
    repeat
      refine .cons rfl rfl ?_
      dsimp only [Column.of, Column.typed]
    exact .nil

def updatePolicyFormat : Format UpdatePolicyPayload fun _ => True where
  zero := ⟨"", "", 0, 0, 0, 0, 0⟩
  columns :=
    [.of "id" .string (·.id) fun v p => { p with id := v },
      .of "name" .string (·.name) fun v p => { p with name := v },
      .of "capacity_tokens" .int64 (·.capacityTokens) fun v p => { p with capacityTokens := v },
      .of "refill_tokens" .int64 (·.refillTokens) fun v p => { p with refillTokens := v },
      .of "refill_interval_ms" .int64 (·.refillIntervalMS) fun v p =>
        { p with refillIntervalMS := v },
      .of "max_cost_tokens" .int64 (·.maxCostTokens) fun v p => { p with maxCostTokens := v },
      .of "expected_version" .uint64 (·.expectedVersion) fun v p => { p with expectedVersion := v }]
  plain := by decide +kernel
  distinct := by decide
  shallow := by decide
  builds _ _ := by
    repeat
      refine .cons rfl rfl ?_
      dsimp only [Column.of, Column.typed]
    exact .nil

def setPolicyActiveFormat : Format SetPolicyActivePayload fun _ => True where
  zero := ⟨"", false, 0⟩
  columns :=
    [.of "id" .string (·.id) fun v p => { p with id := v },
      .of "active" .bool (·.active) fun v p => { p with active := v },
      .of "expected_version" .uint64 (·.expectedVersion) fun v p => { p with expectedVersion := v }]
  plain := by decide +kernel
  distinct := by decide
  shallow := by decide
  builds _ _ := by
    repeat
      refine .cons rfl rfl ?_
      dsimp only [Column.of, Column.typed]
    exact .nil

def createClientFormat : Format CreateClientPayload fun _ => True where
  zero := ⟨"", "", "", [], []⟩
  columns :=
    [.of "id" .string (·.id) fun v p => { p with id := v },
      .of "name" .string (·.name) fun v p => { p with name := v },
      .of "key_prefix" .string (·.keyPrefix) fun v p => { p with keyPrefix := v },
      .of "key_digest" .bytes (·.keyDigest) fun v p => { p with keyDigest := v },
      .typed "allowed_policy_ids" Form.string.list (·.allowedPolicyIDs)
        (fun v p => { p with allowedPolicyIDs := v }) fun _ _ _ _ => trivial]
  plain := by decide +kernel
  distinct := by decide
  shallow := by decide
  builds _ _ := by
    repeat
      refine .cons rfl rfl ?_
      dsimp only [Column.of, Column.typed]
    exact .nil

def revokeClientFormat : Format RevokeClientPayload fun _ => True where
  zero := ⟨""⟩
  columns := [.of "id" .string (·.id) fun v p => { p with id := v }]
  plain := by decide +kernel
  distinct := by decide
  shallow := by decide
  builds _ _ := .cons rfl rfl .nil

def decideFormat : Format DecidePayload fun _ => True where
  zero := ⟨"", "", "", 0, "", ""⟩
  columns :=
    [.of "client_id" .string (·.clientID) fun v p => { p with clientID := v },
      .of "policy_id" .string (·.policyID) fun v p => { p with policyID := v },
      .of "subject" .string (·.subject) fun v p => { p with subject := v },
      .of "cost" .int64 (·.cost) fun v p => { p with cost := v },
      .of "request_id" .string (·.requestID) fun v p => { p with requestID := v },
      .of "actor_type" .string (·.actorType) fun v p => { p with actorType := v }]
  plain := by decide +kernel
  distinct := by decide
  shallow := by decide
  builds _ _ := by
    repeat
      refine .cons rfl rfl ?_
      dsimp only [Column.of, Column.typed]
    exact .nil

def pruneFormat : Format PrunePayload fun _ => True where
  zero := ⟨0⟩
  columns := [.of "audit_keep_max" .int64 (·.auditKeepMax) fun v p => { p with auditKeepMax := v }]
  plain := by decide +kernel
  distinct := by decide
  shallow := by decide
  builds _ _ := .cons rfl rfl .nil

end Payloads

section Envelopes

def CommandType.text : CommandType → String
  | .createPolicy => "create_policy"
  | .updatePolicy => "update_policy"
  | .setPolicyActive => "set_policy_active"
  | .createClient => "create_client"
  | .revokeClient => "revoke_client"
  | .decide => "decide"
  | .prune => "prune"
  | .unknown name => name

def CommandType.ofText : String → CommandType
  | "create_policy" => .createPolicy
  | "update_policy" => .updatePolicy
  | "set_policy_active" => .setPolicyActive
  | "create_client" => .createClient
  | "revoke_client" => .revokeClient
  | "decide" => .decide
  | "prune" => .prune
  | name => .unknown name

/-- The type is one that its name stands for, and the payload is the text of a value with
at most two brackets open at once. -/
structure Command.Written (cmd : Command) : Prop where
  type : CommandType.ofText cmd.type.text = cmd.type
  payload : ∃ text v, cmd.payload = utf8 text ∧ ∀ depth, 2 ≤ depth → Writes depth text v

def commandFormat : Format Command Command.Written where
  zero := ⟨0, "", .unknown "", 0, []⟩
  columns :=
    [.of "schema_version" .uint32 (·.schemaVersion) fun v c => { c with schemaVersion := v },
      .of "id" .string (·.id) fun v c => { c with id := v },
      .typed "type" (.named (.unknown "") CommandType.text fun name => some (.ofText name))
        (·.type) (fun v c => { c with type := v }) fun _ written => congrArg some written.type,
      .of "timestamp_ms" .int64 (·.timestampMS) fun v c => { c with timestampMS := v },
      .raw "payload" (·.payload) (fun v c => { c with payload := v }) 2 (by decide)
        fun _ written => written.payload]
  plain := by decide +kernel
  distinct := by decide
  shallow := by decide
  builds _ _ := by
    repeat
      refine .cons rfl rfl ?_
      dsimp only [Column.of, Column.typed]
    exact .cons rfl trivial .nil

/-- `json.Unmarshal` at the types of the state machine. -/
def jsonLib (sha256 : Bytes → Bytes) (quote : String → String) : Stdlib where
  command := commandFormat.unmarshal
  createPolicy := createPolicyFormat.unmarshal
  updatePolicy := updatePolicyFormat.unmarshal
  setPolicyActive := setPolicyActiveFormat.unmarshal
  createClient := createClientFormat.unmarshal
  revokeClient := revokeClientFormat.unmarshal
  decide := decideFormat.unmarshal
  prune := pruneFormat.unmarshal
  sha256 := sha256
  quote := quote

theorem bytesOf_ofList (text : List Char) : bytesOf (String.ofList text) = utf8 text := by
  rw [bytesOf, String.toByteArray_ofList, List.utf8Encode, List.data_toByteArray]
  rfl

def CreatePolicyPayload.json (payload : CreatePolicyPayload) : List Char :=
  createPolicyFormat.json payload

theorem createPolicy_json (payload : CreatePolicyPayload) : payload.json =
    object [field "id" (string payload.id), field "name" (string payload.name),
      field "capacity_tokens" (integer payload.capacityTokens.toInt),
      field "refill_tokens" (integer payload.refillTokens.toInt),
      field "refill_interval_ms" (integer payload.refillIntervalMS.toInt),
      field "max_cost_tokens" (integer payload.maxCostTokens.toInt),
      field "active" (boolean payload.active)] := by
  simp only [CreatePolicyPayload.json, Format.json, Format.entries, createPolicyFormat, Column.of,
    Column.typed, List.filter_cons_of_pos, List.filter_nil, List.map_cons, List.map_nil,
    Column.entry, Json.Entry.field, Form.string, Form.int64, Form.bool]

def DecidePayload.json (payload : DecidePayload) : List Char := decideFormat.json payload

/-- `NewCommand` at the payload's JSON, and `Encode` of the envelope, which takes
the payload over as it stands. -/
def encodeCommand (id : String) (type : CommandType) (timestampMS : Int64) (payload : List Char) :
    Bytes :=
  bytesOf (String.ofList (object
    [field "schema_version" (number modelSchemaVersion.toNat), field "id" (string id),
      field "type" (string type.text), field "timestamp_ms" (integer timestampMS.toInt),
      field "payload" payload]))

theorem encodeCommand_eq (id : String) (type : CommandType) (timestampMS : Int64)
    (payload : List Char) : encodeCommand id type timestampMS payload =
      utf8 (commandFormat.json ⟨modelSchemaVersion, id, type, timestampMS, utf8 payload⟩) := by
  have text : commandFormat.json ⟨modelSchemaVersion, id, type, timestampMS, utf8 payload⟩ =
      object [field "schema_version" (number modelSchemaVersion.toNat), field "id" (string id),
        field "type" (string type.text), field "timestamp_ms" (integer timestampMS.toInt),
        field "payload" (Json.runes (utf8 payload).length (utf8 payload))] := by
    simp only [Format.json, Format.entries, commandFormat, Column.of, Column.typed, Column.raw,
      List.filter_cons_of_pos, List.filter_nil, List.map_cons, List.map_nil, Column.entry,
      Json.Entry.field, Form.uint32, Form.string, Form.named, Form.int64]
  rw [text, Json.runes_utf8 payload (Json.length_utf8 payload), encodeCommand, bytesOf_ofList]

end Envelopes

end QuorumLimiter.Limiter
