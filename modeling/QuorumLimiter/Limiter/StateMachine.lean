import QuorumLimiter.Lib.JsonText
import QuorumLimiter.Limiter.TokenBucket
import QuorumLimiter.Storage.RaftStore
import QuorumLimiter.Storage.StateStore

/-!
The state machine: one committed entry at a time on the application buckets and
the applied checkpoint. A business rejection is a result and keeps the buckets; a
Go error keeps everything, since the transaction rolls back.
-/

namespace QuorumLimiter.Limiter

open JsonText (hexDigit)

inductive RejectCode
  | validation
  | policyNotFound
  | policyInactive
  | policyExists
  | versionConflict
  | clientNotFound
  | clientRevoked
  | forbiddenPolicy
  | keyPrefixConflict
  | clientExists
  | idempotencyConflict
  deriving DecidableEq, Repr

def idempotencyTTLms : Int64 := 86400000

def defaultAuditKeepMax : Int64 := 100000

inductive Outcome
  | allowed
  | denied
  | applied
  | rejected
  deriving DecidableEq, Repr

structure PruneResult where
  idempotencyRemoved : Nat
  auditRemoved : Nat
  deriving DecidableEq, Repr

structure Result where
  type : Option CommandType := none
  outcome : Outcome
  duplicate : Bool := false
  decision : Option DecisionRecord := none
  policy : Option Policy := none
  client : Option Client := none
  prune : Option PruneResult := none
  rejectCode : Option RejectCode := none
  rejectMsg : String := ""
  deriving DecidableEq, Repr

structure ApplyContext where
  logIndex : Nat
  term : Nat
  deriving DecidableEq, Repr

abbrev ApplyResult := Except ApplyError (Result × AppState)

def storing (written : Except StoreError AppState) : Except ApplyError AppState :=
  written.mapError ApplyError.store

def rejection (type : CommandType) (code : RejectCode) (msg : String) : Result :=
  { type := some type, outcome := .rejected, rejectCode := some code, rejectMsg := msg }

/-- Business rejections keep the buckets. -/
def reject (app : AppState) (type : CommandType) (code : RejectCode) (msg : String) : ApplyResult :=
  .ok (rejection type code msg, app)

/-- A failed check is a validation rejection with the text of the check. -/
def validated {α : Type} (app : AppState) (type : CommandType) (check : Except String α)
    (next : α → ApplyResult) : ApplyResult :=
  match check with
  | .error text => reject app type .validation text
  | .ok value => next value

def adminAudit (ctx : ApplyContext) (eventType policyID : String) (ts : Int64) : AuditEvent :=
  { schemaVersion := modelSchemaVersion, eventType, timestampMS := ts, actorType := "admin",
    actorID := "admin", requestID := "", policyID, subjectHash := "", allowed := false,
    costTokens := 0, remainingMilli := 0, term := ctx.term, logIndex := ctx.logIndex }

def writeAdminAudit (app : AppState) (ctx : ApplyContext) (eventType policyID : String)
    (ts : Int64) : AppState :=
  app.putAudit ctx.logIndex (adminAudit ctx eventType policyID ts)

def putBucket (app : AppState) (b : TokenBucketState) : Except StoreError AppState :=
  app.putTokenBucket b.policyID b.subject b

section Policies

def CreatePolicyPayload.policy (p : CreatePolicyPayload) (name : String) (ts : Int64) : Policy :=
  { schemaVersion := modelSchemaVersion, id := p.id, name, capacityTokens := p.capacityTokens,
    refillTokens := p.refillTokens, refillIntervalMS := p.refillIntervalMS,
    maxCostTokens := p.maxCostTokens, active := p.active, version := 1, createdAtMS := ts,
    updatedAtMS := ts }

def UpdatePolicyPayload.policy (p : UpdatePolicyPayload) (old : Policy) (name : String)
    (ts : Int64) : Policy :=
  { old with
    name
    capacityTokens := p.capacityTokens
    refillTokens := p.refillTokens
    refillIntervalMS := p.refillIntervalMS
    maxCostTokens := p.maxCostTokens
    version := old.version + 1
    updatedAtMS := ts }

def SetPolicyActivePayload.policy (p : SetPolicyActivePayload) (old : Policy) (ts : Int64) :
    Policy :=
  { old with active := p.active, version := old.version + 1, updatedAtMS := ts }

def SetPolicyActivePayload.event (p : SetPolicyActivePayload) : String :=
  if p.active then "policy_activated" else "policy_deactivated"

variable (lib : Stdlib) (ctx : ApplyContext) (cmd : Command) (app : AppState)

def applyCreatePolicy : ApplyResult := do
  let p ← unmarshalPayload lib.createPolicy cmd.payload
  validated app .createPolicy (validatePolicyID p.id) fun _ =>
  validated app .createPolicy (validateName p.name maxPolicyName) fun name =>
  validated app .createPolicy
    (validatePolicyFields p.capacityTokens p.refillTokens p.refillIntervalMS p.maxCostTokens)
    fun _ =>
  match app.getPolicy p.id with
  | some _ => reject app .createPolicy .policyExists "policy id already exists"
  | none => do
      let policy := p.policy name cmd.timestampMS
      let stored ← storing (app.putPolicy policy)
      .ok ({ type := some .createPolicy, outcome := .applied, policy := some policy },
        writeAdminAudit stored ctx "policy_created" policy.id cmd.timestampMS)

/-- What an update does to one bucket: refill under the old policy, clamp to the
new capacity, drop the remainder of another interval, stamp the new version. -/
def convertBucket (old : Policy) (p : UpdatePolicyPayload) (ts : Int64) (b : TokenBucketState) :
    TokenBucketState :=
  let refilled := refillBucket b old.capacityTokens old.refillTokens old.refillIntervalMS ts
  let newCapMilli := p.capacityTokens * milliPerToken
  { refilled with
    tokensMilli := if refilled.tokensMilli > newCapMilli then newCapMilli else refilled.tokensMilli
    refillRemainder :=
      if old.refillIntervalMS ≠ p.refillIntervalMS then 0 else refilled.refillRemainder
    policyVersion := old.version + 1 }

def writeBuckets (app : AppState) : List TokenBucketState → Except StoreError AppState
  | [] => .ok app
  | b :: rest => do
      let stored ← putBucket app b
      writeBuckets stored rest

def applyUpdatePolicy : ApplyResult := do
  let p ← unmarshalPayload lib.updatePolicy cmd.payload
  match app.getPolicy p.id with
  | none => reject app .updatePolicy .policyNotFound "policy does not exist"
  | some old =>
      if old.version ≠ p.expectedVersion then
        reject app .updatePolicy .versionConflict "policy version has changed"
      else
        validated app .updatePolicy (validateName p.name maxPolicyName) fun name =>
        validated app .updatePolicy
          (validatePolicyFields p.capacityTokens p.refillTokens p.refillIntervalMS p.maxCostTokens)
          fun _ => do
        let policy := p.policy old name cmd.timestampMS
        let visited ← (app.forEachTokenBucketByPolicy p.id).mapError ApplyError.store
        let converted ← storing
          (writeBuckets app (visited.map fun item => convertBucket old p cmd.timestampMS item.2))
        let stored ← storing (converted.putPolicy policy)
        .ok ({ type := some .updatePolicy, outcome := .applied, policy := some policy },
          writeAdminAudit stored ctx "policy_updated" policy.id cmd.timestampMS)

def applySetPolicyActive : ApplyResult := do
  let p ← unmarshalPayload lib.setPolicyActive cmd.payload
  match app.getPolicy p.id with
  | none => reject app .setPolicyActive .policyNotFound "policy does not exist"
  | some old =>
      if old.version ≠ p.expectedVersion then
        reject app .setPolicyActive .versionConflict "policy version has changed"
      else do
        let policy := p.policy old cmd.timestampMS
        let stored ← storing (app.putPolicy policy)
        .ok ({ type := some .setPolicyActive, outcome := .applied, policy := some policy },
          writeAdminAudit stored ctx p.event policy.id cmd.timestampMS)

end Policies

section Clients

def CreateClientPayload.client (p : CreateClientPayload) (name : String) (ts : Int64) : Client :=
  { schemaVersion := modelSchemaVersion, id := p.id, name, keyPrefix := p.keyPrefix,
    keyDigest := p.keyDigest, allowedPolicyIDs := p.allowedPolicyIDs, active := true,
    createdAtMS := ts, revokedAtMS := none }

def Client.revoked (client : Client) (ts : Int64) : Client :=
  { client with active := false, revokedAtMS := some ts }

/-- The first listed policy that does not exist; a sole `*` lists none. -/
def missingPolicy (app : AppState) (ids : List String) : Option String :=
  if ids = ["*"] then none else ids.find? fun id => (app.getPolicy id).isNone

variable (lib : Stdlib) (ctx : ApplyContext) (cmd : Command) (app : AppState)

def applyCreateClient : ApplyResult := do
  let p ← unmarshalPayload lib.createClient cmd.payload
  validated app .createClient (validateName p.name maxClientName) fun name =>
  validated app .createClient (validateAllowedPolicies lib.quote p.allowedPolicyIDs) fun _ =>
  if p.id = "" ∨ p.keyPrefix = "" ∨ p.keyDigest.length = 0 then
    reject app .createClient .validation "client id, key prefix, and key digest are required"
  else if (app.getClient p.id).isSome then
    reject app .createClient .clientExists "client id already exists"
  else if (app.getClientIDByPrefix p.keyPrefix).isSome then
    reject app .createClient .keyPrefixConflict "key prefix already in use"
  else
    match missingPolicy app p.allowedPolicyIDs with
    | some id =>
        reject app .createClient .policyNotFound ("allowed policy " ++ id ++ " does not exist")
    | none => do
        let client := p.client name cmd.timestampMS
        let stored ← storing (app.putClient client)
        let indexed ← storing (stored.putClientPrefix client.keyPrefix client.id)
        .ok ({ type := some .createClient, outcome := .applied, client := some client },
          writeAdminAudit indexed ctx "client_created" "" cmd.timestampMS)

def applyRevokeClient : ApplyResult := do
  let p ← unmarshalPayload lib.revokeClient cmd.payload
  match app.getClient p.id with
  | none => reject app .revokeClient .clientNotFound "client does not exist"
  | some old =>
      if !old.active then
        .ok ({ type := some .revokeClient, outcome := .applied, client := some old,
               duplicate := true }, app)
      else do
        let client := old.revoked cmd.timestampMS
        let stored ← storing (app.putClient client)
        .ok ({ type := some .revokeClient, outcome := .applied, client := some client },
          writeAdminAudit stored ctx "client_revoked" "" cmd.timestampMS)

end Clients

section Decisions

/-- `hex.EncodeToString`. -/
def encodeToString (bytes : Bytes) : String :=
  String.ofList (bytes.flatMap fun b => [hexDigit (b.toNat / 16), hexDigit (b.toNat % 16)])

def digestPreimage (policyID subject : String) (cost : Int64) : String :=
  policyID ++ "\n" ++ subject ++ "\n" ++ toString cost.toInt

variable (lib : Stdlib) (ctx : ApplyContext) (cmd : Command) (app : AppState)

def requestDigest (policyID subject : String) (cost : Int64) : String :=
  encodeToString (lib.sha256 (bytesOf (digestPreimage policyID subject cost)))

def subjectHash (subject : String) : String :=
  encodeToString ((lib.sha256 (bytesOf subject)).take 8)

def loadOrInitBucket (policy : Policy) (subject : String) (nowMS : Int64) :
    Except StoreError TokenBucketState := do
  match ← app.getTokenBucket policy.id subject with
  | some bucket => .ok bucket
  | none =>
      .ok { schemaVersion := modelSchemaVersion, policyID := policy.id, subject,
            tokensMilli := policy.capacityTokens * milliPerToken, lastRefillMS := nowMS,
            refillRemainder := 0, policyVersion := policy.version, updatedLogIndex := 0 }

/-- The client and policy checks: the policy to charge, or the rejection. -/
def authorize (p : DecidePayload) : Except (RejectCode × String) Policy :=
  match app.getClient p.clientID with
  | none => .error (.clientNotFound, "unknown client")
  | some client =>
      if !client.active then .error (.clientRevoked, "client is revoked")
      else if !client.allowsPolicy p.policyID then
        .error (.forbiddenPolicy, "client may not use this policy")
      else
        match app.getPolicy p.policyID with
        | none => .error (.policyNotFound, "unknown policy")
        | some policy =>
            if !policy.active then .error (.policyInactive, "policy is inactive")
            else if p.cost > policy.maxCostTokens then
              .error (.validation, "cost exceeds policy maximum")
            else .ok policy

/-- The bucket a decision stores, whether it was allowed, and the retry estimate. -/
def settle (ctx : ApplyContext) (cmd : Command) (p : DecidePayload) (policy : Policy)
    (bucket : TokenBucketState) : TokenBucketState × Bool × Int64 :=
  let refilled := refillBucket bucket policy.capacityTokens policy.refillTokens
    policy.refillIntervalMS cmd.timestampMS
  let (spent, allowed, retryAfter) :=
    spend refilled p.cost policy.refillTokens policy.refillIntervalMS
  ({ spent with policyVersion := policy.version, updatedLogIndex := ctx.logIndex }, allowed,
    retryAfter)

def decisionRecord (p : DecidePayload) (bucket : TokenBucketState) (allowed : Bool)
    (retryAfter : Int64) : DecisionRecord :=
  { schemaVersion := modelSchemaVersion, requestID := p.requestID,
    requestDigest := requestDigest lib p.policyID p.subject p.cost, clientID := p.clientID,
    policyID := p.policyID, subject := p.subject, costTokens := p.cost, allowed,
    remainingMilli := bucket.tokensMilli, retryAfterMS := retryAfter,
    observedAtMS := cmd.timestampMS, expiresAtMS := cmd.timestampMS + idempotencyTTLms,
    leaderTerm := ctx.term, logIndex := ctx.logIndex }

def decisionAudit (p : DecidePayload) (bucket : TokenBucketState) (allowed : Bool) : AuditEvent :=
  { schemaVersion := modelSchemaVersion, eventType := "decision", timestampMS := cmd.timestampMS,
    actorType := if p.actorType = "" then "client" else p.actorType, actorID := p.clientID,
    requestID := p.requestID, policyID := p.policyID, subjectHash := subjectHash lib p.subject,
    allowed, costTokens := p.cost, remainingMilli := bucket.tokensMilli, term := ctx.term,
    logIndex := ctx.logIndex }

def decided (allowed : Bool) : Outcome := if allowed then .allowed else .denied

/-- The charging half of `applyDecide`, once the request is authorized. -/
def charge (p : DecidePayload) (policy : Policy) : ApplyResult := do
  let bucket ← (loadOrInitBucket app policy p.subject cmd.timestampMS).mapError ApplyError.store
  let (settled, allowed, retryAfter) := settle ctx cmd p policy bucket
  let record := decisionRecord lib ctx cmd p settled allowed retryAfter
  let charged ← storing (putBucket app settled)
  let recorded ← storing (charged.putIdempotency p.clientID p.requestID record)
  .ok ({ type := some .decide, outcome := decided allowed, decision := some record },
    recorded.putAudit ctx.logIndex (decisionAudit lib ctx cmd p settled allowed))

/-- The shape checks stand in the source one by one, with the texts of
`validateDecisionInput`. -/
def applyDecide : ApplyResult := do
  let p ← unmarshalPayload lib.decide cmd.payload
  validated app .decide (validateDecisionInput p.policyID p.subject p.requestID p.cost) fun _ => do
  match ← (app.getIdempotency p.clientID p.requestID).mapError ApplyError.store with
  | some prior =>
      if prior.requestDigest ≠ requestDigest lib p.policyID p.subject p.cost then
        reject app .decide .idempotencyConflict
          "idempotency key reused with different request content"
      else
        .ok ({ type := some .decide, outcome := decided prior.allowed, duplicate := true,
               decision := some prior }, app)
  | none =>
      match authorize app p with
      | .error (code, msg) => reject app .decide code msg
      | .ok policy => charge lib ctx cmd app p policy

end Decisions

section Entries

variable (lib : Stdlib)

def PrunePayload.keep (p : PrunePayload) : Int64 :=
  if p.auditKeepMax ≤ 0 then defaultAuditKeepMax else p.auditKeepMax

def expiredKeys (app : AppState) (cutoff : Int64) : List Bytes :=
  (app.idempotency.pairs.filter fun pair => decide (pair.2.expiresAtMS ≤ cutoff)).map Prod.fst

def auditIndexes (app : AppState) : List Nat := app.audit.pairs.map Prod.fst

def auditExcess (app : AppState) (keep : Int64) : Nat :=
  if ((auditIndexes app).length : Int) > keep.toInt then
    ((auditIndexes app).length - keep.toInt).toNat
  else 0

def applyPrune (cmd : Command) (app : AppState) : ApplyResult := do
  let p ← unmarshalPayload lib.prune cmd.payload
  let unexpired := (expiredKeys app cmd.timestampMS).foldl AppState.deleteIdempotency app
  let auditRemoved := auditExcess unexpired p.keep
  .ok ({ type := some .prune, outcome := .applied,
         prune := some ⟨(expiredKeys app cmd.timestampMS).length, auditRemoved⟩ },
    ((auditIndexes unexpired).take auditRemoved).foldl AppState.deleteAudit unexpired)

def applyTx (ctx : ApplyContext) (cmd : Command) (app : AppState) : ApplyResult :=
  match cmd.type with
  | .createPolicy => applyCreatePolicy lib ctx cmd app
  | .updatePolicy => applyUpdatePolicy lib ctx cmd app
  | .setPolicyActive => applySetPolicyActive lib ctx cmd app
  | .createClient => applyCreateClient lib ctx cmd app
  | .revokeClient => applyRevokeClient lib ctx cmd app
  | .decide => applyDecide lib ctx cmd app
  | .prune => applyPrune lib cmd app
  | .unknown name => .error (.unknownCommand name)

/-- `Apply`: the command and its checkpoint in one transaction. -/
def apply (ctx : ApplyContext) (cmd : Command) (state : Nat × AppState) :
    Except ApplyError (Result × Nat × AppState) := do
  let (result, app) ← applyTx lib ctx cmd state.2
  .ok (result, ctx.logIndex, app)

def applyEntry (index term : Nat) (entry : LogEntry) (state : Nat × AppState) :
    Except ApplyError (Result × Nat × AppState) :=
  if entry.kind ≠ .command then .ok ({ outcome := .applied }, index, state.2)
  else
    match lib.command entry.command with
    | none => .error .decodeCommand
    | some cmd => apply lib ⟨index, term⟩ cmd state

end Entries

section Sample

def sampleType : UInt8 → CommandType
  | 0 => .createPolicy
  | 1 => .updatePolicy
  | 2 => .setPolicyActive
  | 3 => .createClient
  | 4 => .revokeClient
  | 5 => .decide
  | 6 => .prune
  | _ => .unknown "sample"

def sampleAmount (b : UInt8) : Int64 := Int64.ofNat b.toNat

/-- A wire format small enough to run the machine on: one policy, one client, one
subject, and one byte for each number. Seconds stand for timestamps. -/
def sampleLib : Stdlib where
  command raw :=
    match raw with
    | kind :: seconds :: payload =>
        some ⟨1, "", sampleType kind, sampleAmount seconds * 1000, payload⟩
    | _ => none
  createPolicy raw :=
    match raw with
    | [capacity, refill] =>
        some ⟨"orders", "Orders", sampleAmount capacity, sampleAmount refill, 1000,
          sampleAmount capacity, true⟩
    | _ => none
  updatePolicy raw :=
    match raw with
    | [capacity, refill, version] =>
        some ⟨"orders", "Orders", sampleAmount capacity, sampleAmount refill, 2000,
          sampleAmount capacity, UInt64.ofNat version.toNat⟩
    | _ => none
  setPolicyActive raw :=
    match raw with
    | [active, version] => some ⟨"orders", active = 1, UInt64.ofNat version.toNat⟩
    | _ => none
  createClient _ := some ⟨"client-a", "Client A", "key-a", [1], ["orders"]⟩
  revokeClient _ := some ⟨"client-a"⟩
  decide raw :=
    match raw with
    | [request, cost] =>
        some ⟨"client-a", "orders", "alice", sampleAmount cost,
          "request-00000000" ++ toString request.toNat, "client"⟩
    | _ => none
  prune raw := raw.head?.map fun keep => ⟨sampleAmount keep⟩
  sha256 bytes := bytes
  quote text := text

/-- Commands in the sample format, at the indexes of a log in one term. -/
def sampleCommands (first : Nat) (raw : List Bytes) : List (ApplyContext × Command) :=
  (raw.zipIdx first).filterMap fun item => (sampleLib.command item.1).map (⟨item.2, 1⟩, ·)

end Sample

end QuorumLimiter.Limiter
