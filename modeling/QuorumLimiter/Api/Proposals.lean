import QuorumLimiter.Api.Admin
import QuorumLimiter.Auth.ApiKey

/-!
The JSON handlers that put commands into the log, each up to the payload it proposes
or the error it answers. The admin handlers validate nothing but the shape of the body;
the decision handler proposes for an authenticated client only, so what it proposes
passes the client checks of the store it read.
-/

namespace QuorumLimiter.Api

open JsonText Limiter Auth

section Handlers

/-- The arguments of `writeAPIError`. -/
structure APIError where
  status : Nat
  code : String
  message : String
  deriving DecidableEq, Repr

def retryable (msg : String) : APIError := ⟨503, "leader_unavailable", msg⟩

structure DecisionRequest where
  policyID : String
  subject : String
  cost : Int64
  deriving DecidableEq, Repr

def bearerToken (authorization : String) : Option String :=
  if "Bearer ".toList <+: authorization.toList then
    let tok := trimSpace (String.ofList (authorization.toList.drop "Bearer ".length))
    if tok = "" then none else some tok
  else none

/-- The body of a decision request, with the answers to one that cannot be read. -/
def decodeDecision (read : Bytes → Read DecisionRequest) (body : Bytes) :
    Except APIError DecisionRequest :=
  match read (body.take maxDecisionBody) with
  | .malformed | .value none _ => .error ⟨400, "invalid_json", "malformed JSON body"⟩
  | .incomplete =>
      if body.length > maxDecisionBody then
        .error ⟨413, "request_too_large", "request body too large"⟩
      else .error ⟨400, "invalid_json", "malformed JSON body"⟩
  | .value (some req) rest =>
      if more rest then .error ⟨400, "invalid_json", "unexpected trailing data"⟩ else .ok req

def processLocally (hmac : Bytes → Bytes → Bytes) (auth : APIKeyAuthenticator)
    (read : Bytes → Read DecisionRequest) (contentType idem authorization : String) (body : Bytes) :
    Except APIError DecidePayload :=
  if ¬"application/json".toList <+: contentType.toList then
    .error ⟨415, "unsupported_media_type", "content-type must be application/json"⟩
  else if idem = "" then .error ⟨422, "validation_failed", "Idempotency-Key header is required"⟩
  else
    match bearerToken authorization with
    | none => .error ⟨401, "invalid_api_key", "missing bearer token"⟩
    | some rawKey =>
        match auth.authenticate hmac (bytesOf rawKey) with
        | .error .invalidAPIKey => .error ⟨401, "invalid_api_key", "invalid api key"⟩
        | .error (.store _) => .error (retryable "auth unavailable")
        | .ok client => do
            let req ← decodeDecision read body
            match validateDecisionInput req.policyID req.subject idem req.cost with
            | .error message => .error ⟨422, "validation_failed", message⟩
            | .ok _ =>
                if !client.allowsPolicy req.policyID then
                  .error ⟨403, "forbidden_policy", "client may not use this policy"⟩
                else
                  .ok { clientID := client.id, policyID := req.policyID, subject := req.subject,
                        cost := req.cost, requestID := idem, actorType := "client" }

structure UpdatePolicyRequest where
  name : String
  capacityTokens : Int64
  refillTokens : Int64
  refillIntervalMS : Int64
  maxCostTokens : Int64
  expectedVersion : UInt64
  deriving DecidableEq, Repr

structure ActivationRequest where
  active : Bool
  expectedVersion : UInt64
  deriving DecidableEq, Repr

structure CreateClientRequest where
  name : String
  allowedPolicyIDs : List String
  deriving DecidableEq, Repr

structure RevokeClientRequest where
  confirm : Bool
  deriving DecidableEq, Repr

/-- What every admin handler does with its body. -/
def readAdminBody {α : Type} (read : Bytes → Read α) (body : Bytes) : Except APIError α :=
  (decodeAdminBody read body).mapError fun _ => ⟨400, "invalid_json", "malformed JSON body"⟩

def createPolicy (read : Bytes → Read CreatePolicyRequest) (body : Bytes) :
    Except APIError CreatePolicyPayload :=
  readAdminBody read body

def updatePolicy (read : Bytes → Read UpdatePolicyRequest) (id : String) (body : Bytes) :
    Except APIError UpdatePolicyPayload := do
  let req ← readAdminBody read body
  return { id, name := req.name, capacityTokens := req.capacityTokens,
           refillTokens := req.refillTokens, refillIntervalMS := req.refillIntervalMS,
           maxCostTokens := req.maxCostTokens, expectedVersion := req.expectedVersion }

def changeActivation (read : Bytes → Read ActivationRequest) (id : String) (body : Bytes) :
    Except APIError SetPolicyActivePayload := do
  let req ← readAdminBody read body
  return { id, active := req.active, expectedVersion := req.expectedVersion }

/-- What the two handlers that create a client share: a key and an id are generated, and
only the key's digest is kept. They differ in their error answers. -/
def newClient {ε : Type} (noKey noID : ε) (hmac : Bytes → Bytes → Bytes)
    (authn : APIKeyAuthenticator) (pb : Random 5) (sb : Random 32) (b : Random 10) (name : String)
    (allowedPolicyIDs : List String) : Except ε CreateClientPayload :=
  match pb, sb with
  | some pb, some sb =>
      match generateClientID b with
      | none => .error noID
      | some clientID =>
          let (rawKey, keyPrefix) := generateAPIKey pb.1 sb.1
          .ok { id := clientID, name, keyPrefix, keyDigest := authn.digest hmac (bytesOf rawKey),
                allowedPolicyIDs }
  | _, _ => .error noKey

def createClient (hmac : Bytes → Bytes → Bytes) (authn : APIKeyAuthenticator)
    (read : Bytes → Read CreateClientRequest) (pb : Random 5) (sb : Random 32) (b : Random 10)
    (body : Bytes) : Except APIError CreateClientPayload := do
  let req ← readAdminBody read body
  newClient ⟨500, "internal", "key generation failed"⟩ ⟨500, "internal", "id generation failed"⟩
    hmac authn pb sb b req.name req.allowedPolicyIDs

def revokeClient (read : Bytes → Read RevokeClientRequest) (id : String) (body : Bytes) :
    Except APIError RevokeClientPayload := do
  let req ← readAdminBody read body
  if !req.confirm then .error ⟨422, "validation_failed", "confirm must be true"⟩ else .ok { id }

end Handlers

section Payloads

variable {hmac : Bytes → Bytes → Bytes} {auth : APIKeyAuthenticator}

theorem processLocally_accepted {read : Bytes → Read DecisionRequest}
    {contentType idem authorization : String} {body : Bytes} {p : DecidePayload}
    (ran : processLocally hmac auth read contentType idem authorization body = .ok p) :
    ∃ rawKey client req, bearerToken authorization = some rawKey ∧
      auth.authenticate hmac (bytesOf rawKey) = .ok client ∧ decodeDecision read body = .ok req ∧
      validateDecisionInput req.policyID req.subject idem req.cost = .ok () ∧
      client.allowsPolicy req.policyID = true ∧
      p = { clientID := client.id, policyID := req.policyID, subject := req.subject,
            cost := req.cost, requestID := idem, actorType := "client" } := by
  unfold processLocally at ran
  split at ran
  · contradiction
  split at ran
  · contradiction
  split at ran
  · contradiction
  rename_i rawKey token
  split at ran
  · contradiction
  · contradiction
  rename_i client accepted
  obtain ⟨req, decoded, ran⟩ := bind_ok ran
  split at ran
  · contradiction
  rename_i valid
  split at ran
  · contradiction
  rename_i permitted
  cases ran
  exact ⟨rawKey, client, req, token, accepted, decoded, valid, by simpa using permitted, rfl⟩

theorem newClient_generated {ε : Type} {noKey noID : ε} {pb : Random 5} {sb : Random 32}
    {b : Random 10} {name : String} {allowed : List String} {p : CreateClientPayload}
    (ran : newClient noKey noID hmac auth pb sb b name allowed = .ok p) :
    generateClientID b = some p.id := by
  unfold newClient at ran
  split at ran
  · split at ran
    · contradiction
    · rename_i clientID generated
      cases ran
      exact generated
  · contradiction

/-- What the decision handler proposes passes the client checks of the store it read. -/
theorem decision_passes_client_checks {pepper : Bytes} {read : Bytes → Read DecisionRequest}
    {contentType idem authorization : String} {body : Bytes} {p : DecidePayload} {app : AppState}
    (keyed : Keyed app) (indexed : Indexed app)
    (ran : processLocally hmac ⟨pepper, storeClients app⟩ read contentType idem authorization body =
      .ok p) (code : RejectCode) (msg : String) (refused : authorize app p = .error (code, msg)) :
    code = .policyNotFound ∨ code = .policyInactive ∨ code = .validation := by
  obtain ⟨rawKey, client, req, _, accepted, _, _, permitted, rfl⟩ := processLocally_accepted ran
  obtain ⟨_, _, _, _, _, stored, active, _⟩ :=
    (authenticate_ok_iff keyed indexed client).mp accepted
  rw [authorize, stored] at refused
  simp only [active, permitted, Bool.not_true, Bool.false_eq_true, if_false] at refused
  split at refused
  · cases refused
    exact Or.inl rfl
  · split at refused
    · cases refused
      exact Or.inr (Or.inl rfl)
    · split at refused
      · cases refused
        exact Or.inr (Or.inr rfl)
      · contradiction

end Payloads

end QuorumLimiter.Api
