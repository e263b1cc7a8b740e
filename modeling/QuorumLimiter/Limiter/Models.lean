import QuorumLimiter.Storage.Encoding

/-!
The stored records, the replicated commands and their payloads. Values are kept
decoded; what the standard library does with bytes (JSON, SHA-256, quoting) is a
parameter of the model.
-/

namespace QuorumLimiter.Limiter

def modelSchemaVersion : UInt32 := 1

structure Policy where
  schemaVersion : UInt32
  id : String
  name : String
  capacityTokens : Int64
  refillTokens : Int64
  refillIntervalMS : Int64
  maxCostTokens : Int64
  active : Bool
  version : UInt64
  createdAtMS : Int64
  updatedAtMS : Int64
  deriving DecidableEq, Repr

structure Client where
  schemaVersion : UInt32
  id : String
  name : String
  keyPrefix : String
  keyDigest : Bytes
  allowedPolicyIDs : List String
  active : Bool
  createdAtMS : Int64
  revokedAtMS : Option Int64
  deriving DecidableEq, Repr

def Client.allowsPolicy (client : Client) (policyID : String) : Bool :=
  client.allowedPolicyIDs.any fun allowed => allowed = "*" ∨ allowed = policyID

structure TokenBucketState where
  schemaVersion : UInt32
  policyID : String
  subject : String
  tokensMilli : Int64
  lastRefillMS : Int64
  refillRemainder : Int64
  policyVersion : UInt64
  updatedLogIndex : Nat
  deriving DecidableEq, Repr

structure DecisionRecord where
  schemaVersion : UInt32
  requestID : String
  requestDigest : String
  clientID : String
  policyID : String
  subject : String
  costTokens : Int64
  allowed : Bool
  remainingMilli : Int64
  retryAfterMS : Int64
  observedAtMS : Int64
  expiresAtMS : Int64
  leaderTerm : Nat
  logIndex : Nat
  deriving DecidableEq, Repr

structure AuditEvent where
  schemaVersion : UInt32
  eventType : String
  timestampMS : Int64
  actorType : String
  actorID : String
  requestID : String
  policyID : String
  subjectHash : String
  allowed : Bool
  costTokens : Int64
  remainingMilli : Int64
  term : Nat
  logIndex : Nat
  deriving DecidableEq, Repr

inductive CommandType
  | createPolicy
  | updatePolicy
  | setPolicyActive
  | createClient
  | revokeClient
  | decide
  | prune
  | unknown (name : String)
  deriving DecidableEq, Repr

structure Command where
  schemaVersion : UInt32
  id : String
  type : CommandType
  timestampMS : Int64
  payload : Bytes
  deriving DecidableEq, Repr

structure CreatePolicyPayload where
  id : String
  name : String
  capacityTokens : Int64
  refillTokens : Int64
  refillIntervalMS : Int64
  maxCostTokens : Int64
  active : Bool
  deriving DecidableEq, Repr

structure UpdatePolicyPayload where
  id : String
  name : String
  capacityTokens : Int64
  refillTokens : Int64
  refillIntervalMS : Int64
  maxCostTokens : Int64
  expectedVersion : UInt64
  deriving DecidableEq, Repr

structure SetPolicyActivePayload where
  id : String
  active : Bool
  expectedVersion : UInt64
  deriving DecidableEq, Repr

structure CreateClientPayload where
  id : String
  name : String
  keyPrefix : String
  keyDigest : Bytes
  allowedPolicyIDs : List String
  deriving DecidableEq, Repr

structure RevokeClientPayload where
  id : String
  deriving DecidableEq, Repr

structure DecidePayload where
  clientID : String
  policyID : String
  subject : String
  cost : Int64
  requestID : String
  actorType : String
  deriving DecidableEq, Repr

structure PrunePayload where
  auditKeepMax : Int64
  deriving DecidableEq, Repr

/-- The standard library functions the state machine calls: `json.Unmarshal` at
each of its types, `sha256.Sum256`, and `%q`. -/
structure Stdlib where
  command : Bytes → Option Command
  createPolicy : Bytes → Option CreatePolicyPayload
  updatePolicy : Bytes → Option UpdatePolicyPayload
  setPolicyActive : Bytes → Option SetPolicyActivePayload
  createClient : Bytes → Option CreateClientPayload
  revokeClient : Bytes → Option RevokeClientPayload
  decide : Bytes → Option DecidePayload
  prune : Bytes → Option PrunePayload
  sha256 : Bytes → Bytes
  quote : String → String

/-- A Go error of `Apply`; business rejections are results, not errors. -/
inductive ApplyError
  | decodeCommand
  | decodePayload
  | unknownCommand (name : String)
  | store (error : StoreError)
  deriving DecidableEq, Repr

def unmarshalPayload {α : Type} (decode : Bytes → Option α) (raw : Bytes) : Except ApplyError α :=
  match decode raw with
  | none => .error .decodePayload
  | some payload => .ok payload

section Fallible

variable {ε δ α β : Type}

theorem bind_ok {first : Except ε α} {next : α → Except ε β} {value : β}
    (ran : (first >>= next) = .ok value) : ∃ middle, first = .ok middle ∧ next middle = .ok value := by
  cases first with
  | error error => cases ran
  | ok middle => exact ⟨middle, rfl, ran⟩

theorem mapError_ok {first : Except ε α} {wrap : ε → δ} {value : α}
    (ran : first.mapError wrap = .ok value) : first = .ok value := by
  cases first with
  | error error => cases ran
  | ok middle =>
      cases ran
      rfl

theorem toOption_ok {first : Except ε α} {read : α → β} {seen : β}
    (found : first.toOption.map read = some seen) : ∃ value, first = .ok value ∧ read value = seen := by
  cases first with
  | error error => cases found
  | ok value => exact ⟨value, rfl, Option.some.inj found⟩

theorem unmarshalPayload_ok {decode : Bytes → Option α} {raw : Bytes} {payload : α}
    (decoded : unmarshalPayload decode raw = .ok payload) : decode raw = some payload := by
  unfold unmarshalPayload at decoded
  split at decoded
  · contradiction
  · cases decoded
    assumption

end Fallible

end QuorumLimiter.Limiter
