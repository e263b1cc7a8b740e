import QuorumLimiter.Auth.ApiKey
import QuorumLimiter.Limiter.CommandJson
import QuorumLimiter.Limiter.Replicated

/-!
Progress. A committed entry cannot stop the apply loop: on every reachable store,
every command the node builds returns a result, so every log of such entries
replays to its end.
-/

namespace QuorumLimiter.Limiter

open Auth (keyPrefixLen)
open Fixed64
open Json (Writes utf8)

section Building

def clientIDLen : Nat := "cli_".utf8ByteSize + BaseText.encodedLen 5 10

inductive Payload
  | createPolicy (p : CreatePolicyPayload)
  | updatePolicy (p : UpdatePolicyPayload)
  | setPolicyActive (p : SetPolicyActivePayload)
  | createClient (p : CreateClientPayload)
  | revokeClient (p : RevokeClientPayload)
  | decide (p : DecidePayload)
  | prune (p : PrunePayload)
  deriving DecidableEq, Repr

def Payload.type : Payload → CommandType
  | .createPolicy _ => .createPolicy
  | .updatePolicy _ => .updatePolicy
  | .setPolicyActive _ => .setPolicyActive
  | .createClient _ => .createClient
  | .revokeClient _ => .revokeClient
  | .decide _ => .decide
  | .prune _ => .prune

/-- Client ids and key prefixes are no longer than generated ones. -/
def Payload.Short : Payload → Prop
  | .createClient p =>
      p.id.utf8ByteSize ≤ clientIDLen ∧ p.keyPrefix.utf8ByteSize ≤ keyPrefixLen
  | .revokeClient p => p.id.utf8ByteSize ≤ clientIDLen
  | .decide p => p.clientID.utf8ByteSize ≤ clientIDLen
  | _ => True

def Payload.Decoded (lib : Stdlib) (raw : Bytes) : Payload → Prop
  | .createPolicy p => lib.createPolicy raw = some p
  | .updatePolicy p => lib.updatePolicy raw = some p
  | .setPolicyActive p => lib.setPolicyActive raw = some p
  | .createClient p => lib.createClient raw = some p
  | .revokeClient p => lib.revokeClient raw = some p
  | .decide p => lib.decide raw = some p
  | .prune p => lib.prune raw = some p

def newCommand (marshal : Payload → Bytes) (id : String) (typ : CommandType) (timestampMS : Int64)
    (payload : Payload) : Command :=
  { schemaVersion := modelSchemaVersion, id, type := typ, timestampMS, payload := marshal payload }

/-- `json.Marshal` on payloads and on command envelopes, which `json.Unmarshal`
reverses. -/
structure Codec (lib : Stdlib) where
  marshal : Payload → Bytes
  encode : Command → Bytes
  payload : ∀ p : Payload, p.Decoded lib (marshal p)
  command : ∀ id timestampMS p, lib.command (encode (newCommand marshal id p.type timestampMS p)) =
    some (newCommand marshal id p.type timestampMS p)

/-- The entry has no command, or one of `NewCommand`. -/
def Codec.Built {lib : Stdlib} (codec : Codec lib) (entry : LogEntry) : Prop :=
  entry.kind = .command → ∃ id timestampMS, ∃ payload : Payload, payload.Short ∧
    entry.command = codec.encode (newCommand codec.marshal id payload.type timestampMS payload)

end Building

section Returning

variable {lib : Stdlib} {ctx : ApplyContext} {cmd : Command} {app : AppState}

def Returns (ran : ApplyResult) : Prop := ∃ result after, ran = .ok (result, after)

theorem returns_reject (type : CommandType) (code : RejectCode) (msg : String) :
    Returns (reject app type code msg) := ⟨_, _, rfl⟩

theorem returns_validated {α : Type} {type : CommandType} {check : Except String α}
    {next : α → ApplyResult} (rest : ∀ value, check = .ok value → Returns (next value)) :
    Returns (validated app type check next) := by
  unfold validated
  split
  · exact returns_reject _ _ _
  · exact rest _ rfl

theorem returns_bind {α : Type} {first : Except ApplyError α} {value : α} {next : α → ApplyResult}
    (ran : first = .ok value) (rest : Returns (next value)) : Returns (first >>= next) := by
  subst ran
  exact rest

theorem unmarshalPayload_some {α : Type} {decode : Bytes → Option α} {raw : Bytes} {payload : α}
    (decoded : decode raw = some payload) : unmarshalPayload decode raw = .ok payload := by
  rw [unmarshalPayload, decoded]

theorem wrapped_ok {α : Type} {found : Except StoreError α} {value : α} (ran : found = .ok value) :
    found.mapError ApplyError.store = .ok value := by
  rw [ran]
  rfl

theorem putPolicy_returns {policy : Policy} (shape : matchesPolicyID policy.id = true) :
    ∃ after, app.putPolicy policy = .ok after := by
  obtain ⟨filled, short⟩ := policyID_bytes shape
  rw [AppState.putPolicy, putKey_short _ _ filled (short.trans (by decide))]
  exact ⟨_, rfl⟩

theorem putClient_returns {client : Client} (filled : client.id ≠ "")
    (short : client.id.utf8ByteSize ≤ clientIDLen) : ∃ after, app.putClient client = .ok after := by
  rw [AppState.putClient, putKey_short _ _ (bytesOf_ne_nil filled)
    ((bytesOf_length client.id).trans_le (short.trans (by decide)))]
  exact ⟨_, rfl⟩

theorem putClientPrefix_returns {keyPrefix clientID : String} (filled : keyPrefix ≠ "")
    (short : keyPrefix.utf8ByteSize ≤ keyPrefixLen) :
    ∃ after, app.putClientPrefix keyPrefix clientID = .ok after := by
  rw [AppState.putClientPrefix, putKey_short _ _ (bytesOf_ne_nil filled)
    ((bytesOf_length keyPrefix).trans_le (short.trans (by decide)))]
  exact ⟨_, rfl⟩

theorem putBucket_returns {b : TokenBucketState} (policy : matchesPolicyID b.policyID = true)
    (subject : validateSubject b.subject = .ok ()) : ∃ after, putBucket app b = .ok after := by
  have policyShort := (policyID_bytes policy).2
  have subjectShort := subject_bytes subject
  obtain ⟨tokenBuckets, put⟩ := putPair_short app.tokenBuckets b
    (show (bytesOf b.policyID).length + (bytesOf b.subject).length + 4 ≤ maxKeySize by
      rw [maxKeySize]
      omega)
  rw [putBucket, AppState.putTokenBucket, put]
  exact ⟨_, rfl⟩

/-- The key of a request's record is not too long. -/
def RecordFits (clientID requestID : String) : Prop :=
  (bytesOf clientID).length + (bytesOf requestID).length + 4 ≤ maxKeySize

theorem recordFits_short {clientID requestID : String}
    (client : clientID.utf8ByteSize ≤ clientIDLen)
    (request : validateRequestID requestID = .ok ()) : RecordFits clientID requestID := by
  have clientShort : (bytesOf clientID).length ≤ 20 := client
  have requestShort := requestID_bytes request
  rw [RecordFits, maxKeySize]
  omega

theorem putIdempotency_returns {clientID requestID : String} {record : DecisionRecord}
    (fits : RecordFits clientID requestID) :
    ∃ after, app.putIdempotency clientID requestID record = .ok after := by
  obtain ⟨idempotency, put⟩ := putPair_short app.idempotency record fits
  rw [AppState.putIdempotency, put]
  exact ⟨_, rfl⟩

theorem getPair_short {ν : Type} (bucket : Bucket Bytes ν) {first second : Bytes}
    (left : first.length ≤ maxKeyPartLen) (right : second.length ≤ maxKeyPartLen) :
    ∃ found, getPair bucket first second = .ok found := by
  rw [getPair, compositeKey_short left right]
  exact ⟨_, rfl⟩

theorem getIdempotency_returns {clientID requestID : String} (fits : RecordFits clientID requestID) :
    ∃ found, app.getIdempotency clientID requestID = .ok found := by
  have parts : maxKeySize ≤ maxKeyPartLen := by decide
  unfold RecordFits at fits
  exact getPair_short app.idempotency (by omega) (by omega)

theorem loadOrInitBucket_returns {policy : Policy} {subject : String} {now : Int64}
    (shape : matchesPolicyID policy.id = true) (accepted : validateSubject subject = .ok ()) :
    ∃ bucket, loadOrInitBucket app policy subject now = .ok bucket := by
  obtain ⟨found, looked⟩ := getPair_short app.tokenBuckets
    ((policyID_bytes shape).2.trans (by decide)) ((subject_bytes accepted).trans (by decide))
  rw [loadOrInitBucket, AppState.getTokenBucket, looked]
  cases found with
  | none => exact ⟨_, rfl⟩
  | some bucket => exact ⟨bucket, rfl⟩

end Returning

section Handlers

variable {lib : Stdlib} {ctx : ApplyContext} {cmd : Command} {app : AppState}

theorem createPolicy_returns {p : CreatePolicyPayload}
    (decoded : lib.createPolicy cmd.payload = some p) :
    Returns (applyCreatePolicy lib ctx cmd app) := by
  refine returns_bind (unmarshalPayload_some decoded) ?_
  refine returns_validated fun _ shape => ?_
  refine returns_validated fun name named => ?_
  refine returns_validated fun _ fields => ?_
  split
  · exact returns_reject _ _ _
  · obtain ⟨after, put⟩ : ∃ after, app.putPolicy (p.policy name cmd.timestampMS) = .ok after :=
      putPolicy_returns (validatePolicyID_ok shape)
    exact returns_bind (wrapped_ok put) ⟨_, _, rfl⟩

theorem writeBuckets_returns {converted : List TokenBucketState}
    (shapes : ∀ b ∈ converted, matchesPolicyID b.policyID = true ∧
      validateSubject b.subject = .ok ()) : ∃ after, writeBuckets app converted = .ok after := by
  induction converted generalizing app with
  | nil => exact ⟨app, rfl⟩
  | cons first rest ih =>
      obtain ⟨policy, subject⟩ := shapes first (by simp)
      obtain ⟨stored, put⟩ : ∃ stored, putBucket app first = .ok stored :=
        putBucket_returns policy subject
      rw [writeBuckets, put]
      exact ih fun b member => shapes b (by simp [member])

theorem converting_returns (keyed : Keyed app) {p : UpdatePolicyPayload} {old : Policy}
    (found : app.getPolicy p.id = some old) (ts : Int64) :
    ∃ visited after, app.forEachTokenBucketByPolicy p.id = .ok visited ∧
      writeBuckets app (visited.map fun item => convertBucket old p ts item.2) = .ok after := by
  have paired := ownKeys_paired (keyed_ownKeys keyed)
  obtain ⟨same, shape, _⟩ := keyed_getPolicy keyed found
  have short := (policyID_bytes shape).2
  rw [same] at short
  obtain ⟨visited, walked, _⟩ := forEachOwned_eq paired (short.trans (by decide))
  obtain ⟨after, written⟩ : ∃ after, writeBuckets app
      (visited.map fun item => convertBucket old p ts item.2) = .ok after := by
    refine writeBuckets_returns fun converted member => ?_
    obtain ⟨⟨subject, b⟩, visit, rfl⟩ := List.mem_map.mp member
    obtain ⟨key, _, stored⟩ :=
      lookupPair_eq_some_iff.mp ((mem_forEachOwned paired walked subject b).mp visit)
    rw [convertBucket_policyID, convertBucket_subject]
    exact (keyed.buckets key b stored).2
  exact ⟨visited, after, walked, written⟩

theorem updatePolicy_returns {p : UpdatePolicyPayload} (keyed : Keyed app)
    (decoded : lib.updatePolicy cmd.payload = some p) :
    Returns (applyUpdatePolicy lib ctx cmd app) := by
  refine returns_bind (unmarshalPayload_some decoded) ?_
  split
  · exact returns_reject _ _ _
  · rename_i old found
    split
    · exact returns_reject _ _ _
    refine returns_validated fun name named => ?_
    refine returns_validated fun _ fields => ?_
    obtain ⟨visited, converted, walked, written⟩ := converting_returns keyed found cmd.timestampMS
    obtain ⟨_, shape, _⟩ := keyed_getPolicy keyed found
    obtain ⟨after, put⟩ : ∃ after,
        converted.putPolicy (p.policy old name cmd.timestampMS) = .ok after :=
      putPolicy_returns shape
    refine returns_bind (wrapped_ok walked) ?_
    refine returns_bind (wrapped_ok written) ?_
    exact returns_bind (wrapped_ok put) ⟨_, _, rfl⟩

theorem setPolicyActive_returns {p : SetPolicyActivePayload} (keyed : Keyed app)
    (decoded : lib.setPolicyActive cmd.payload = some p) :
    Returns (applySetPolicyActive lib ctx cmd app) := by
  refine returns_bind (unmarshalPayload_some decoded) ?_
  split
  · exact returns_reject _ _ _
  · rename_i old found
    split
    · exact returns_reject _ _ _
    · obtain ⟨_, shape, _⟩ := keyed_getPolicy keyed found
      obtain ⟨after, put⟩ : ∃ after, app.putPolicy (p.policy old cmd.timestampMS) = .ok after :=
        putPolicy_returns shape
      exact returns_bind (wrapped_ok put) ⟨_, _, rfl⟩

theorem createClient_returns {p : CreateClientPayload}
    (decoded : lib.createClient cmd.payload = some p) (idShort : p.id.utf8ByteSize ≤ clientIDLen)
    (keyShort : p.keyPrefix.utf8ByteSize ≤ keyPrefixLen) :
    Returns (applyCreateClient lib ctx cmd app) := by
  refine returns_bind (unmarshalPayload_some decoded) ?_
  refine returns_validated fun name named => ?_
  refine returns_validated fun _ listed => ?_
  split
  · exact returns_reject _ _ _
  rename_i filled
  rw [not_or, not_or] at filled
  split
  · exact returns_reject _ _ _
  split
  · exact returns_reject _ _ _
  split
  · exact returns_reject _ _ _
  · obtain ⟨stored, put⟩ : ∃ after, app.putClient (p.client name cmd.timestampMS) = .ok after :=
      putClient_returns filled.1 idShort
    obtain ⟨indexed, index⟩ : ∃ after, stored.putClientPrefix p.keyPrefix p.id = .ok after :=
      putClientPrefix_returns filled.2.1 keyShort
    refine returns_bind (wrapped_ok put) ?_
    exact returns_bind (wrapped_ok index) ⟨_, _, rfl⟩

theorem revokeClient_returns {p : RevokeClientPayload} (keyed : Keyed app)
    (decoded : lib.revokeClient cmd.payload = some p) (short : p.id.utf8ByteSize ≤ clientIDLen) :
    Returns (applyRevokeClient lib ctx cmd app) := by
  refine returns_bind (unmarshalPayload_some decoded) ?_
  split
  · exact returns_reject _ _ _
  · rename_i old found
    split
    · exact ⟨_, _, rfl⟩
    · obtain ⟨same, filled⟩ := keyed_getClient keyed found
      obtain ⟨after, put⟩ : ∃ after, app.putClient (old.revoked cmd.timestampMS) = .ok after :=
        putClient_returns filled (same ▸ short)
      exact returns_bind (wrapped_ok put) ⟨_, _, rfl⟩

theorem charge_returns {p : DecidePayload} {policy : Policy} (keyed : Keyed app)
    (fits : RecordFits p.clientID p.requestID) (subject : validateSubject p.subject = .ok ())
    (shape : matchesPolicyID policy.id = true) : Returns (charge lib ctx cmd app p policy) := by
  obtain ⟨bucket, loaded⟩ : ∃ bucket,
      loadOrInitBucket app policy p.subject cmd.timestampMS = .ok bucket :=
    loadOrInitBucket_returns shape subject
  refine returns_bind (wrapped_ok loaded) ?_
  obtain ⟨owner, named⟩ := loadOrInitBucket_owner (keyed_ownKeys keyed) loaded
  cases spent : settle ctx cmd p policy bucket with
  | mk settled rest =>
      obtain ⟨keptOwner, keptName⟩ := settle_owner spent
      obtain ⟨charged, put⟩ : ∃ after, putBucket app settled = .ok after := by
        apply putBucket_returns
        · rw [keptOwner, owner]
          exact shape
        · rw [keptName, named]
          exact subject
      obtain ⟨recorded, filed⟩ : ∃ after, charged.putIdempotency p.clientID p.requestID
          (decisionRecord lib ctx cmd p settled rest.1 rest.2) = .ok after :=
        putIdempotency_returns fits
      refine returns_bind (wrapped_ok put) ?_
      exact returns_bind (wrapped_ok filed) ⟨_, _, rfl⟩

theorem decide_returns {p : DecidePayload} (keyed : Keyed app)
    (decoded : lib.decide cmd.payload = some p)
    (fits : validateRequestID p.requestID = .ok () → RecordFits p.clientID p.requestID) :
    Returns (applyDecide lib ctx cmd app) := by
  refine returns_bind (unmarshalPayload_some decoded) ?_
  refine returns_validated fun _ accepted => ?_
  obtain ⟨_, subject, request⟩ := validateDecisionInput_parts accepted
  obtain ⟨found, looked⟩ : ∃ found, app.getIdempotency p.clientID p.requestID = .ok found :=
    getIdempotency_returns (fits request)
  refine returns_bind (wrapped_ok looked) ?_
  split
  · split
    · exact returns_reject _ _ _
    · exact ⟨_, _, rfl⟩
  · split
    · exact returns_reject _ _ _
    · rename_i policy authorized
      obtain ⟨_, shape, _⟩ := keyed_getPolicy keyed (authorize_ok authorized).1
      exact charge_returns keyed (fits request) subject shape

theorem prune_returns {p : PrunePayload} (decoded : lib.prune cmd.payload = some p) :
    Returns (applyPrune lib cmd app) :=
  returns_bind (unmarshalPayload_some decoded) ⟨_, _, rfl⟩

theorem applyTx_returns {payload : Payload} (keyed : Keyed app) (typed : cmd.type = payload.type)
    (decoded : payload.Decoded lib cmd.payload) (short : payload.Short) :
    Returns (applyTx lib ctx cmd app) := by
  unfold applyTx
  rw [typed]
  cases payload with
  | createPolicy p => exact createPolicy_returns decoded
  | updatePolicy p => exact updatePolicy_returns keyed decoded
  | setPolicyActive p => exact setPolicyActive_returns keyed decoded
  | createClient p => exact createClient_returns decoded short.1 short.2
  | revokeClient p => exact revokeClient_returns keyed decoded short
  | decide p => exact decide_returns keyed decoded (recordFits_short short)
  | prune p => exact prune_returns decoded

end Handlers

section Entries

variable {lib : Stdlib}

theorem divisors_nonzero {policy : Policy} (bounded : policy.Bounded) :
    policy.refillIntervalMS ≠ 0 ∧ policy.refillTokens * milliPerToken ≠ 0 := by
  have interval := bounded.intervalLow
  have low := bounded.refillLow
  have high := bounded.refillHigh
  have thousand : milliPerToken.toInt = 1000 := rfl
  have rate : (policy.refillTokens * milliPerToken).toInt = policy.refillTokens.toInt * 1000 := by
    rw [toInt_mul_fits] <;> rw [thousand] <;> omega
  exact ⟨ne_zero_of_pos (by omega), ne_zero_of_pos (by omega)⟩

theorem built_applies (codec : Codec lib) {state : Nat × AppState} {entry : LogEntry}
    (keyed : Keyed state.2) (built : codec.Built entry) (index term : Nat) :
    ∃ result after, applyEntry lib index term entry state = .ok (result, index, after) ∧
      Keyed after := by
  unfold applyEntry
  split
  · exact ⟨_, _, rfl, keyed⟩
  · rename_i command
    obtain ⟨id, timestampMS, payload, short, encoded⟩ := built (not_not.mp command)
    rw [encoded, codec.command]
    obtain ⟨result, after, ran⟩ : Returns (applyTx lib ⟨index, term⟩
        (newCommand codec.marshal id payload.type timestampMS payload) state.2) :=
      applyTx_returns keyed rfl (codec.payload payload) short
    refine ⟨result, after, ?_, keyed_effect keyed (applyTx_effect ran)⟩
    simp only [apply, ran]
    rfl

/-- No committed entry stops the apply loop. On every store that commands reach from
the migrated one, an entry that holds no command, or one that `NewCommand` built from
any payload at any time with client ids and key prefixes no longer than generated
ones, is applied without a Go error and moves the checkpoint to its index; and no
refill or retry estimate under a stored policy divides by zero. -/
theorem committed_entry_applies (lib : Stdlib) (codec : Codec lib)
    (commands : List (ApplyContext × Command)) (entry : LogEntry) (index term : Nat)
    (built : codec.Built entry) :
    (∃ result app, applyEntry lib index term entry (finish lib (0, AppState.migrated) commands) =
      .ok (result, index, app)) ∧
    ∀ id policy, (finish lib (0, AppState.migrated) commands).2.getPolicy id = some policy →
      policy.refillIntervalMS ≠ 0 ∧ policy.refillTokens * milliPerToken ≠ 0 := by
  have keyed : Keyed (finish lib (0, AppState.migrated) commands).2 :=
    keyed_finish _ commands keyed_migrated
  obtain ⟨result, app, ran, _⟩ := built_applies codec keyed built index term
  exact ⟨⟨result, app, ran⟩, fun id policy found =>
    divisors_nonzero (keyed_getPolicy keyed found).2.2⟩

theorem built_log_replays (codec : Codec lib) (index : Nat) (entries : List LogEntry)
    (state : Nat × AppState) (keyed : Keyed state.2)
    (built : ∀ entry ∈ entries, codec.Built entry) :
    ∃ after, replay (some (applyFunc lib)) index entries state = .ok after := by
  induction entries generalizing index state with
  | nil => exact ⟨state, rfl⟩
  | cons entry rest ih =>
      obtain ⟨result, app, ran, kept⟩ :=
        built_applies codec keyed (built entry (by simp)) index entry.term
      obtain ⟨after, replayed⟩ := ih (index + 1) (index, app) kept
        fun other member => built other (by simp [member])
      refine ⟨after, ?_⟩
      simp only [replay, transition, applyFunc, ran, Except.mapError]
      exact replayed

end Entries

section Written

def Payload.json : Payload → List Char
  | .createPolicy p => createPolicyFormat.json p
  | .updatePolicy p => updatePolicyFormat.json p
  | .setPolicyActive p => setPolicyActiveFormat.json p
  | .createClient p => createClientFormat.json p
  | .revokeClient p => revokeClientFormat.json p
  | .decide p => decideFormat.json p
  | .prune p => pruneFormat.json p

theorem payload_writes (payload : Payload) :
    ∃ v, ∀ depth, 2 ≤ depth → Writes depth payload.json v := by
  have shallow {α : Type} (format : Json.Format α fun _ => True) (within : format.levels ≤ 1)
      (p : α) : ∃ v, ∀ depth, 2 ≤ depth → Writes depth (format.json p) v :=
    ⟨_, fun depth deep => format.writes_json trivial depth (by omega)⟩
  cases payload with
  | createPolicy p => exact shallow createPolicyFormat (by decide) p
  | updatePolicy p => exact shallow updatePolicyFormat (by decide) p
  | setPolicyActive p => exact shallow setPolicyActiveFormat (by decide) p
  | createClient p => exact shallow createClientFormat (by decide) p
  | revokeClient p => exact shallow revokeClientFormat (by decide) p
  | decide p => exact shallow decideFormat (by decide) p
  | prune p => exact shallow pruneFormat (by decide) p

theorem newCommand_written (id : String) (timestampMS : Int64) (payload : Payload) :
    (newCommand (fun p => utf8 p.json) id payload.type timestampMS payload).Written := by
  obtain ⟨v, writes⟩ := payload_writes payload
  refine ⟨?_, payload.json, v, rfl, writes⟩
  cases payload <;> rfl

theorem payload_decoded (sha256 : Bytes → Bytes) (quote : String → String) (payload : Payload) :
    payload.Decoded (jsonLib sha256 quote) (utf8 payload.json) := by
  cases payload <;> simp only [Payload.Decoded, Payload.json, jsonLib, Json.Format.unmarshal_json]

theorem command_decoded (sha256 : Bytes → Bytes) (quote : String → String) {cmd : Command}
    (written : cmd.Written) :
    (jsonLib sha256 quote).command (utf8 (commandFormat.json cmd)) = some cmd := by
  simp only [jsonLib, commandFormat.unmarshal_json written]

theorem encodeCommand_decoded (sha256 : Bytes → Bytes) (quote : String → String) (id : String)
    (timestampMS : Int64) (payload : Payload) :
    (jsonLib sha256 quote).command (encodeCommand id payload.type timestampMS payload.json) =
      some ⟨modelSchemaVersion, id, payload.type, timestampMS, utf8 payload.json⟩ := by
  rw [encodeCommand_eq]
  exact command_decoded sha256 quote (newCommand_written id timestampMS payload)

/-- Whatever id and time a command is given, and whatever its payload holds, every node
reads the bytes that were proposed as that command and its payload as that payload. -/
theorem proposed_command_read_back (sha256 : Bytes → Bytes) (quote : String → String) (id : String)
    (timestampMS : Int64) (payload : Payload) :
    (jsonLib sha256 quote).command (encodeCommand id payload.type timestampMS payload.json) =
        some ⟨modelSchemaVersion, id, payload.type, timestampMS, utf8 payload.json⟩ ∧
      payload.Decoded (jsonLib sha256 quote) (utf8 payload.json) :=
  ⟨encodeCommand_decoded sha256 quote id timestampMS payload,
    payload_decoded sha256 quote payload⟩

def jsonCodec (sha256 : Bytes → Bytes) (quote : String → String) : Codec (jsonLib sha256 quote) where
  marshal payload := utf8 payload.json
  encode cmd := utf8 (commandFormat.json cmd)
  payload := payload_decoded sha256 quote
  command id timestampMS payload :=
    command_decoded sha256 quote (newCommand_written id timestampMS payload)

end Written

section Sample

def plainLib : Stdlib := jsonLib (fun bytes => bytes) fun text => text

def plainCodec : Codec plainLib := jsonCodec _ _

def plainEntry (index : Nat) (payload : Payload) : LogEntry :=
  ⟨index, 1, .command,
    plainCodec.encode (newCommand plainCodec.marshal "command" payload.type 1000 payload)⟩

/-- A policy of five tokens and a client that may use it. -/
def plainSetup : List (ApplyContext × Command) :=
  [.createPolicy ⟨"orders", "Orders", 5, 2, 1000, 5, true⟩,
    .createClient ⟨"client-a", "Client A", "abcdefgh", [1], ["orders"]⟩].mapIdx
      fun place (payload : Payload) => (⟨place + 1, 1⟩,
        newCommand plainCodec.marshal "command" payload.type 1000 payload)

def plainDecide : Payload :=
  .decide ⟨"client-a", "orders", "alice", 2, "request-000000001", "client"⟩

/-- A decision takes two of the five tokens. -/
theorem committed_entry_applies_charge : ∃ result app,
    applyEntry plainLib 3 1 (plainEntry 3 plainDecide)
      (finish plainLib (0, AppState.migrated) plainSetup) = .ok (result, 3, app) ∧
    (app.getTokenBucket "orders" "alice").toOption.join.map (·.tokensMilli) = some 3000 := by
  have short : plainDecide.Short := show "client-a".utf8ByteSize ≤ clientIDLen by decide
  obtain ⟨⟨result, app, ran⟩, _⟩ := committed_entry_applies plainLib plainCodec plainSetup
    (plainEntry 3 plainDecide) 3 1 fun _ => ⟨"command", 1000, plainDecide, short, rfl⟩
  have charged : (applyEntry plainLib 3 1 (plainEntry 3 plainDecide)
      (finish plainLib (0, AppState.migrated) plainSetup)).toOption.bind (fun reached =>
        (reached.2.2.getTokenBucket "orders" "alice").toOption.join.map (·.tokensMilli)) =
      some 3000 := by decide +kernel
  rw [ran] at charged
  exact ⟨result, app, ran, charged⟩

end Sample

end QuorumLimiter.Limiter
