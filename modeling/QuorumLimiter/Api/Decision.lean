import Mathlib.Data.List.Forall2
import QuorumLimiter.Api.Proposals
import QuorumLimiter.Lib.Trimming
import QuorumLimiter.Raft.Types

/-!
`POST /v1/decisions` on a node that may or may not lead. A follower hands the request
to the leader it knows of, marked so that it is not handed on again, and relays the
answer. Nodes may have any idea of who leads, and the transport may send the copy more
than once; it is proposed at most once each time it arrives.
-/

namespace QuorumLimiter.Api

open JsonText Limiter Auth Trimming

section Responses

/-- The headers the handler reads, empty where absent, and the body. -/
structure HTTPRequest where
  contentType : String
  idempotencyKey : String
  authorization : String
  requestID : String
  forwarded : String
  body : Bytes
  deriving DecidableEq, Repr

/-- The answer: its status, the headers that vary, and the text of the body. -/
structure HTTPResponse where
  status : Nat
  requestID : String
  retryAfter : String
  body : List Char
  deriving DecidableEq, Repr

structure DecisionResponse where
  requestID : String
  policyID : String
  allowed : Bool
  cost : Int64
  remainingMilli : Int64
  retryAfterMS : Int64
  observedAt : String
  leaderTerm : Nat
  logIndex : Nat
  duplicate : Bool
  deriving DecidableEq, Repr

def DecisionResponse.json (resp : DecisionResponse) : List Char :=
  object
    [field "request_id" (string resp.requestID), field "policy_id" (string resp.policyID),
      field "allowed" (boolean resp.allowed), field "cost" (integer resp.cost.toInt),
      field "remaining_milli" (integer resp.remainingMilli.toInt),
      field "retry_after_ms" (integer resp.retryAfterMS.toInt),
      field "observed_at" (string resp.observedAt), field "leader_term" (number resp.leaderTerm),
      field "log_index" (number resp.logIndex), field "duplicate" (boolean resp.duplicate)]

/-- The error envelope. An empty message or request id is left out. -/
def APIError.json (e : APIError) (requestID : String) : List Char :=
  object [field "error" (object
    ([field "code" (string e.code)] ++
      (if e.message = "" then [] else [field "message" (string e.message)]) ++
      (if requestID = "" then [] else [field "request_id" (string requestID)])))]

/-- `Encode` ends the value with a newline. -/
def writeJSON (reqID : String) (status : Nat) (value : List Char) : HTTPResponse :=
  ⟨status, reqID, "", value ++ ['\n']⟩

def writeAPIError (reqID : String) (e : APIError) : HTTPResponse :=
  writeJSON reqID e.status (e.json reqID)

def retryLater (reqID msg : String) : HTTPResponse :=
  { writeAPIError reqID (retryable msg) with retryAfter := "1" }

/-- How `processLocally` answers an error; every 503 comes from `retryable`. -/
def refuse (reqID : String) (e : APIError) : HTTPResponse :=
  if e.status = 503 then retryLater reqID e.message else writeAPIError reqID e

def ceilSeconds (ms : Int64) : Int64 := if ms ≤ 0 then 0 else (ms + 999) / 1000

def writeReject (reqID : String) (result : Result) : HTTPResponse :=
  writeAPIError reqID <|
    match result.rejectCode with
    | some .validation => ⟨422, "validation_failed", result.rejectMsg⟩
    | some .policyNotFound | some .policyInactive => ⟨404, "policy_not_found", result.rejectMsg⟩
    | some .forbiddenPolicy => ⟨403, "forbidden_policy", result.rejectMsg⟩
    | some .clientNotFound | some .clientRevoked => ⟨401, "invalid_api_key", "invalid api key"⟩
    | some .idempotencyConflict => ⟨409, "idempotency_conflict", result.rejectMsg⟩
    | _ => ⟨422, "validation_failed", result.rejectMsg⟩

def decisionAnswer (rfc3339 : Int64 → String) (reqID : String) (d : DecisionRecord)
    (duplicate : Bool) : HTTPResponse :=
  let value := DecisionResponse.json
    { requestID := d.requestID, policyID := d.policyID, allowed := d.allowed, cost := d.costTokens,
      remainingMilli := d.remainingMilli, retryAfterMS := d.retryAfterMS,
      observedAt := rfc3339 d.observedAtMS, leaderTerm := d.leaderTerm, logIndex := d.logIndex,
      duplicate }
  if d.allowed then writeJSON reqID 200 value
  else
    { writeJSON reqID 429 value with retryAfter := toString (ceilSeconds d.retryAfterMS).toInt }

def writeResult (rfc3339 : Int64 → String) (reqID : String) (result : Result) : HTTPResponse :=
  if result.outcome = .rejected then writeReject reqID result
  else
    match result.decision with
    | none => retryLater reqID "missing decision"
    | some d => decisionAnswer rfc3339 reqID d result.duplicate

/-- The errors of `Propose`. A context error other than a passed deadline is `raft .context`. -/
inductive ProposeError
  | deadlineExceeded
  | raft (error : RaftError)
  deriving DecidableEq, Repr

def mapProposeError (reqID : String) : ProposeError → HTTPResponse
  | .deadlineExceeded | .raft .proposalTimeout =>
      writeAPIError reqID ⟨504, "proposal_timeout",
        "timed out awaiting commit; retry with the same Idempotency-Key"⟩
  | .raft .notLeader | .raft .noLeader | .raft .lostQuorum | .raft .stopped =>
      retryLater reqID "no leader or quorum"
  | .raft .context | .raft .store => retryLater reqID "unavailable"

end Responses

section Identifiers

/-- What `rand.Read` leaves in the twelve bytes of an id; its error is ignored. -/
abbrev IDBytes := { bytes : Bytes // bytes.length = 12 }

def generateID (start : String) (b : IDBytes) : String := start ++ encodeToString b.1

def requestIDChar (c : Char) : Bool :=
  ('A' ≤ c ∧ c ≤ 'Z') ∨ ('a' ≤ c ∧ c ≤ 'z') ∨ ('0' ≤ c ∧ c ≤ '9') ∨
    c = '-' ∨ c = '_' ∨ c = '.' ∨ c = '~'

def validRequestID (id : String) : Bool :=
  ¬((bytesOf id).length < 8 ∨ (bytesOf id).length > 128) ∧ id.toList.all requestIDChar

def requestID (r : HTTPRequest) (b : IDBytes) : String :=
  if validRequestID r.requestID then r.requestID else generateID "req_" b

end Identifiers

section Handling

structure Runtime where
  hmac : Bytes → Bytes → Bytes
  read : Bytes → Read DecisionRequest
  rfc3339 : Int64 → String

/-- The handler as one request finds it: the node's status, or none if it is stopped, what
`Propose` comes to, the time, and the random bytes of the two ids it may draw. -/
structure DecisionHandler where
  status : Option (Role × String)
  auth : APIKeyAuthenticator
  peerURLs : List (String × String)
  propose : Bytes → Except ProposeError (Option Result)
  now : Int64
  requestBytes : IDBytes
  commandBytes : IDBytes

inductive Sent
  | unbuilt
  | failed
  | answered (resp : HTTPResponse)
  deriving DecidableEq, Repr

/-- An answer and the commands handed to `Propose` on the way to it. -/
structure Served where
  response : HTTPResponse
  proposed : List Bytes
  deriving DecidableEq, Repr

def decideCommand (h : DecisionHandler) (p : DecidePayload) : Bytes :=
  encodeCommand (generateID "dcmd_" h.commandBytes) .decide h.now (DecidePayload.json p)

def DecisionHandler.processLocally (runtime : Runtime) (h : DecisionHandler) (reqID : String)
    (r : HTTPRequest) : Served :=
  match Api.processLocally runtime.hmac h.auth runtime.read r.contentType r.idempotencyKey
      r.authorization r.body with
  | .error e => ⟨refuse reqID e, []⟩
  | .ok payload =>
      let body := decideCommand h payload
      ⟨match h.propose body with
        | .error e => mapProposeError reqID e
        | .ok none => retryLater reqID "unexpected result"
        | .ok (some result) => writeResult runtime.rfc3339 reqID result, [body]⟩

def forward (send : String → HTTPRequest → Sent × List Bytes) (leaderURL reqID : String)
    (r : HTTPRequest) : Served :=
  if r.body.length > maxDecisionBody then
    ⟨writeAPIError reqID ⟨400, "invalid_json", "could not read request body"⟩, []⟩
  else
    match send (trimRight '/' leaderURL ++ "/v1/decisions")
        { r with requestID := reqID, forwarded := "1" } with
    | (.unbuilt, proposed) => ⟨retryLater reqID "build forward request", proposed⟩
    | (.failed, proposed) => ⟨retryLater reqID "leader forward failed", proposed⟩
    | (.answered resp, proposed) => ⟨{ resp with requestID := reqID }, proposed⟩

def DecisionHandler.handleDecision (runtime : Runtime)
    (send : String → HTTPRequest → Sent × List Bytes) (h : DecisionHandler) (r : HTTPRequest) :
    Served :=
  let reqID := Api.requestID r h.requestBytes
  match h.status with
  | none => ⟨retryLater reqID "node unavailable", []⟩
  | some (role, leaderID) =>
      if role = .leader then h.processLocally runtime reqID r
      else if r.forwarded ≠ "" then ⟨retryLater reqID "not leader after forward", []⟩
      else if leaderID = "" then ⟨retryLater reqID "no leader elected", []⟩
      else
        match h.peerURLs.lookup leaderID with
        | none => ⟨retryLater reqID "unknown leader address", []⟩
        | some leaderURL => forward send leaderURL reqID r

/-- The nodes that a request sent to a URL arrives at, one after the other, each with
whether its answer gets back. There may be several: `http.Transport` sends a request
with an `Idempotency-Key` again when a connection fails it. The numbers say at which
arrivals of the request it was sent on before, the latest first. -/
abbrev Mesh := List Nat → String → List (DecisionHandler × Bool)

/-- The request is sent until an answer gets back. What the nodes before proposed stays
proposed. -/
def attempts (serve : Nat → DecisionHandler → Served) :
    Nat → List (DecisionHandler × Bool) → Sent × List Bytes
  | _, [] => (.failed, [])
  | i, (h, returns) :: rest =>
      let served := serve i h
      if returns then (.answered served.response, served.proposed)
      else
        let (sent, proposed) := attempts serve (i + 1) rest
        (sent, served.proposed ++ proposed)

/-- A request sent to a URL. `hops` bounds how often it may be sent on. -/
def exchange (runtime : Runtime) (mesh : Mesh) :
    Nat → List Nat → String → HTTPRequest → Sent × List Bytes
  | 0, _, _, _ => (.failed, [])
  | hops + 1, path, url, r =>
      attempts (fun i h => h.handleDecision runtime (exchange runtime mesh hops (i :: path)) r) 0
        (mesh path url)

end Handling

section Forwarding

variable {runtime : Runtime} {h leader : DecisionHandler}
  {send other : String → HTTPRequest → Sent × List Bytes} {r : HTTPRequest}

theorem encodeToString_toList (bytes : Bytes) : (encodeToString bytes).toList =
    bytes.flatMap fun b => [hexDigit (b.toNat / 16), hexDigit (b.toNat % 16)] := by
  rw [encodeToString, String.toList_ofList]

theorem hexDigit_plain (value : Nat) :
    requestIDChar (hexDigit value) = true ∧ (hexDigit value).utf8Size = 1 := by
  rcases Nat.lt_or_ge value 16 with inside | outside
  · have listed : ∀ value < 16, requestIDChar (hexDigit value) = true ∧
        (hexDigit value).utf8Size = 1 := by decide +kernel
    exact listed value inside
  · rw [hexDigit, List.getD_eq_getElem?_getD, List.getElem?_eq_none outside]
    decide +kernel

theorem size_encodeToString (bytes : Bytes) :
    size (encodeToString bytes).toList = 2 * bytes.length := by
  rw [encodeToString_toList]
  induction bytes with
  | nil => rfl
  | cons first rest ih =>
      rw [List.flatMap_cons, size_append, ih]
      simp only [size_cons, size_nil, (hexDigit_plain _).2, List.length_cons]
      omega

theorem generateID_valid (b : IDBytes) : validRequestID (generateID "req_" b) = true := by
  have bytes : (bytesOf (generateID "req_" b)).length = 28 := by
    have encoded := size_encoded (generateID "req_" b).toList
    rw [String.ofList_toList] at encoded
    rw [bytesOf, encoded, generateID, String.toList_append, size_append, size_encodeToString, b.2]
    decide +kernel
  have chars : (generateID "req_" b).toList.all requestIDChar = true := by
    rw [generateID, String.toList_append, List.all_append, encodeToString_toList, Bool.and_eq_true]
    refine ⟨by decide +kernel, List.all_eq_true.mpr fun c member => ?_⟩
    obtain ⟨byte, _, listed⟩ := List.mem_flatMap.mp member
    simp only [List.mem_cons, List.not_mem_nil, or_false] at listed
    rcases listed with rfl | rfl <;> exact (hexDigit_plain _).1
  simp [validRequestID, bytes, chars]

theorem requestID_valid (r : HTTPRequest) (b : IDBytes) :
    validRequestID (requestID r b) = true := by
  unfold requestID
  split
  · assumption
  · exact generateID_valid b

theorem handleDecision_forwarded (marked : r.forwarded ≠ "") :
    h.handleDecision runtime send r = h.handleDecision runtime other r := by
  unfold DecisionHandler.handleDecision
  split
  · rfl
  · simp only [if_pos marked]

/-- The node led, and the command is the valid request of a client it authenticated. -/
structure ProposedBy (runtime : Runtime) (r : HTTPRequest) (h : DecisionHandler) (body : Bytes) :
    Prop where
  leads : ∃ leaderID, h.status = some (.leader, leaderID)
  accepted : ∃ rawKey client req, bearerToken r.authorization = some rawKey ∧
    h.auth.authenticate runtime.hmac (bytesOf rawKey) = .ok client ∧
    decodeDecision runtime.read r.body = .ok req ∧
    validateDecisionInput req.policyID req.subject r.idempotencyKey req.cost = .ok () ∧
    client.allowsPolicy req.policyID = true ∧
    body = decideCommand h
      { clientID := client.id, policyID := req.policyID, subject := req.subject, cost := req.cost,
        requestID := r.idempotencyKey, actorType := "client" }

theorem processLocally_proposed (runtime : Runtime) (h : DecisionHandler) (r : HTTPRequest)
    (reqID : String) {leaderID : String} (leads : h.status = some (.leader, leaderID)) :
    (h.processLocally runtime reqID r).proposed = [] ∨
      ∃ body, (h.processLocally runtime reqID r).proposed = [body] ∧ ProposedBy runtime r h body := by
  unfold DecisionHandler.processLocally
  split
  · exact Or.inl rfl
  · rename_i p accepted
    refine Or.inr ⟨_, rfl, ⟨leaderID, leads⟩, ?_⟩
    obtain ⟨rawKey, client, req, token, known, decoded, valid, permitted, rfl⟩ :=
      processLocally_accepted accepted
    exact ⟨rawKey, client, req, token, known, decoded, valid, permitted, rfl⟩

theorem handleDecision_cases (runtime : Runtime) (h : DecisionHandler)
    (send : String → HTTPRequest → Sent × List Bytes) (r : HTTPRequest) :
    (∃ msg, h.handleDecision runtime send r =
        ⟨retryLater (Api.requestID r h.requestBytes) msg, []⟩) ∨
      (∃ leaderID, h.status = some (.leader, leaderID) ∧ h.handleDecision runtime send r =
        h.processLocally runtime (Api.requestID r h.requestBytes) r) ∨
      ∃ leaderURL, r.forwarded = "" ∧ h.handleDecision runtime send r =
        forward send leaderURL (Api.requestID r h.requestBytes) r := by
  unfold DecisionHandler.handleDecision
  split
  · exact Or.inl ⟨_, rfl⟩
  · rename_i role leaderID status
    split
    · rename_i leads
      subst role
      exact Or.inr (Or.inl ⟨leaderID, status, rfl⟩)
    split
    · exact Or.inl ⟨_, rfl⟩
    rename_i first
    split
    · exact Or.inl ⟨_, rfl⟩
    split
    · exact Or.inl ⟨_, rfl⟩
    · rename_i leaderURL _
      exact Or.inr (Or.inr ⟨leaderURL, not_not.mp first, rfl⟩)

theorem forward_proposed (send : String → HTTPRequest → Sent × List Bytes) (r : HTTPRequest)
    (leaderURL reqID : String) :
    (forward send leaderURL reqID r).proposed = [] ∨
      (forward send leaderURL reqID r).proposed =
        (send (trimRight '/' leaderURL ++ "/v1/decisions")
          { r with requestID := reqID, forwarded := "1" }).2 := by
  unfold forward
  split
  · exact Or.inl rfl
  · split <;> (rename_i answer; rw [answer]; exact Or.inr rfl)

end Forwarding

section Mesh

variable {runtime : Runtime} {mesh : Mesh}

theorem attempts_answered {serve : Nat → DecisionHandler → Served} {resp : HTTPResponse}
    {proposed : List Bytes} (i : Nat) (arrivals : List (DecisionHandler × Bool))
    (got : attempts serve i arrivals = (.answered resp, proposed)) :
    ∃ j h, (h, true) ∈ arrivals ∧ (serve j h).response = resp := by
  induction arrivals generalizing i proposed with
  | nil => cases got
  | cons arrival rest ih =>
      obtain ⟨h, returns⟩ := arrival
      cases returns with
      | true =>
          cases got
          exact ⟨i, h, List.mem_cons_self, rfl⟩
      | false =>
          have sent : (attempts serve (i + 1) rest).1 = .answered resp := congrArg Prod.fst got
          obtain ⟨j, other, member, same⟩ := ih (i + 1) (Prod.ext sent rfl)
          exact ⟨j, other, List.mem_cons_of_mem _ member, same⟩

theorem attempts_proposed {serve : Nat → DecisionHandler → Served}
    {By : DecisionHandler → Bytes → Prop} (single : ∀ i h, (serve i h).proposed = [] ∨
      ∃ body, (serve i h).proposed = [body] ∧ By h body)
    (i : Nat) (arrivals : List (DecisionHandler × Bool)) :
    ∃ leaders, leaders.Sublist (arrivals.map Prod.fst) ∧
      List.Forall₂ By leaders (attempts serve i arrivals).2 := by
  -- if each node proposes at most one command, the commands belong to different arrivals
  induction arrivals generalizing i with
  | nil => exact ⟨[], List.Sublist.slnil, .nil⟩
  | cons arrival rest ih =>
      obtain ⟨h, returns⟩ := arrival
      obtain ⟨leaders, inside, each⟩ : ∃ leaders, leaders.Sublist (rest.map Prod.fst) ∧
          List.Forall₂ By leaders (if returns then [] else (attempts serve (i + 1) rest).2) := by
        cases returns with
        | true => exact ⟨[], List.nil_sublist _, .nil⟩
        | false => exact ih (i + 1)
      have all : (attempts serve i ((h, returns) :: rest)).2 = (serve i h).proposed ++
          if returns then [] else (attempts serve (i + 1) rest).2 := by
        cases returns <;> simp [attempts]
      rw [all]
      rcases single i h with none | ⟨body, one, by'⟩
      · rw [none]
        exact ⟨leaders, inside.cons h, each⟩
      · rw [one]
        exact ⟨h :: leaders, inside.cons_cons h, .cons by' each⟩

theorem handleDecision_once (hops : Nat) (path : List Nat) (h : DecisionHandler)
    (r : HTTPRequest) :
    h.handleDecision runtime (exchange runtime mesh (hops + 1) path) r =
      h.handleDecision runtime (exchange runtime mesh 1 path) r := by
  have again (reqID url : String) :
      exchange runtime mesh (hops + 1) path url { r with requestID := reqID, forwarded := "1" } =
        exchange runtime mesh 1 path url { r with requestID := reqID, forwarded := "1" } := by
    rw [exchange, exchange]
    refine congrArg (attempts · 0 (mesh path url)) ?_
    funext i h
    exact handleDecision_forwarded (show "1" ≠ "" by decide)
  simp only [DecisionHandler.handleDecision, forward, again]

theorem forwarded_proposed {send : String → HTTPRequest → Sent × List Bytes} {r : HTTPRequest}
    (marked : r.forwarded ≠ "") (h : DecisionHandler) :
    (h.handleDecision runtime send r).proposed = [] ∨
      ∃ body, (h.handleDecision runtime send r).proposed = [body] ∧ ProposedBy runtime r h body := by
  rcases handleDecision_cases runtime h send r with
    ⟨msg, handled⟩ | ⟨leaderID, leads, handled⟩ | ⟨leaderURL, first, _⟩
  · exact Or.inl (congrArg Served.proposed handled)
  · rw [handled]
    exact processLocally_proposed runtime h r _ leads
  · exact absurd first marked

theorem handleDecision_proposed (path : List Nat) (h : DecisionHandler) (r : HTTPRequest) :
    ∃ leaders, (leaders.Sublist [h] ∨ ∃ url, leaders.Sublist ((mesh path url).map Prod.fst)) ∧
      List.Forall₂ (ProposedBy runtime r) leaders
        (h.handleDecision runtime (exchange runtime mesh 1 path) r).proposed := by
  have nothing : ∃ leaders, (leaders.Sublist [h] ∨
      ∃ url, leaders.Sublist ((mesh path url).map Prod.fst)) ∧
      List.Forall₂ (ProposedBy runtime r) leaders [] :=
    ⟨[], Or.inl (List.nil_sublist _), .nil⟩
  rcases handleDecision_cases runtime h (exchange runtime mesh 1 path) r with
    ⟨msg, handled⟩ | ⟨leaderID, leads, handled⟩ | ⟨leaderURL, _, handled⟩
  · rw [handled]
    exact nothing
  · rw [handled]
    rcases processLocally_proposed runtime h r (requestID r h.requestBytes) leads with
      none | ⟨body, one, own⟩
    · rw [none]
      exact nothing
    · rw [one]
      exact ⟨[h], Or.inl (List.Sublist.refl _), .cons own .nil⟩
  · rw [handled]
    rcases forward_proposed (exchange runtime mesh 1 path) r leaderURL
      (requestID r h.requestBytes) with none | sent
    · rw [none]
      exact nothing
    · rw [sent, exchange]
      have marked : ({ r with requestID := requestID r h.requestBytes, forwarded := "1" } :
          HTTPRequest).forwarded ≠ "" := show "1" ≠ "" by decide
      obtain ⟨leaders, inside, each⟩ :=
        attempts_proposed (fun _ g => forwarded_proposed marked g) 0 (mesh path _)
      -- the copy has the key, the credentials and the body of the request
      exact ⟨leaders, Or.inr ⟨_, inside⟩, each.imp fun _ _ made => ⟨made.leads, made.accepted⟩⟩

end Mesh

def sampleIDs : IDBytes := ⟨List.replicate 12 7, rfl⟩

def threeTokens : Runtime :=
  ⟨(· ++ ·), fun _ => .value (some ⟨"orders", "alice", 3⟩) [], fun _ => ""⟩

def threeTokensRequest (length : Nat) : HTTPRequest :=
  ⟨"application/json", "request-000000001", "Bearer " ++ sampleKey.1, "", "",
    List.replicate length 32⟩

/-- A handler whose `Propose`, where it is asked, returns the result. -/
def sampleHandler (role : Role) (auth : APIKeyAuthenticator) (result : Result) :
    DecisionHandler where
  status := some (role, "b")
  auth := auth
  peerURLs := [("a", "http://a/"), ("b", "http://b/")]
  propose _ := .ok (some result)
  now := 0
  requestBytes := sampleIDs
  commandBytes := sampleIDs

def keyStore : Nat × AppState := finish keyLib (0, AppState.migrated) [(⟨1, 1⟩, createKey)]

def allowedRecord : DecisionRecord :=
  ⟨1, "request-000000001", "", "client-a", "orders", "alice", 3, true, 2000, 0, 1000, 86401000, 1, 4⟩

def allowedResult : Result :=
  { type := some .decide, outcome := .allowed, decision := some allowedRecord }

/-- Whatever each node takes its role and its leader to be, a request that may be sent on
any number of times goes where it goes with one. Each command proposed for it is the
request of an authenticated client, proposed by a node that led when the request or the
copy sent on arrived there, and different commands come from different arrivals: there
is one at most, unless the transport sends the copy again. -/
theorem request_proposed_per_arrival (runtime : Runtime) (mesh : Mesh) (hops : Nat)
    (path : List Nat) (h : DecisionHandler) (r : HTTPRequest) :
    h.handleDecision runtime (exchange runtime mesh (hops + 1) path) r =
        h.handleDecision runtime (exchange runtime mesh 1 path) r ∧
      (∃ leaders, (leaders.Sublist [h] ∨
          ∃ url, leaders.Sublist ((mesh path url).map Prod.fst)) ∧
        List.Forall₂ (ProposedBy runtime r) leaders
          (h.handleDecision runtime (exchange runtime mesh 1 path) r).proposed) ∧
      ((∀ url, (mesh path url).length ≤ 1) →
        (h.handleDecision runtime (exchange runtime mesh 1 path) r).proposed.length ≤ 1) := by
  obtain ⟨leaders, reached, each⟩ := handleDecision_proposed path h r
  refine ⟨handleDecision_once hops path h r, ⟨leaders, reached, each⟩, fun single => ?_⟩
  rw [← each.length_eq]
  rcases reached with own | ⟨url, copies⟩
  · exact own.length_le
  · exact copies.length_le.trans (by simpa using single url)

def resendMesh : Mesh
  | [], _ => [(sampleHandler .follower ⟨[9], storeClients keyStore.2⟩ allowedResult, true)]
  | _, _ =>
      [(sampleHandler .leader ⟨[9], storeClients keyStore.2⟩ allowedResult, false),
        (sampleHandler .leader ⟨[9], storeClients keyStore.2⟩ allowedResult, true)]

example : (exchange threeTokens resendMesh 2 [] "http://a" (threeTokensRequest 9)).2.length = 2 := by
  decide +kernel

section Relaying

variable {runtime : Runtime} {h : DecisionHandler} {r : HTTPRequest} {reqID : String}

theorem writeResult_requestID (rfc3339 : Int64 → String) (result : Result) :
    (writeResult rfc3339 reqID result).requestID = reqID := by
  unfold writeResult
  split
  · rfl
  split
  · rfl
  · rw [decisionAnswer]
    split <;> rfl

theorem processLocally_requestID :
    (h.processLocally runtime reqID r).response.requestID = reqID := by
  unfold DecisionHandler.processLocally
  split
  · rw [refuse]
    split <;> rfl
  · dsimp only
    split
    · rw [mapProposeError.eq_def]
      split <;> rfl
    · rfl
    · exact writeResult_requestID _ _

theorem relayed {resp : HTTPResponse} (own : resp.requestID = reqID) :
    { resp with requestID := reqID } = resp := by
  subst own
  rfl

theorem processLocally_error {hmac : Bytes → Bytes → Bytes} {auth : APIKeyAuthenticator}
    {read : Bytes → Read DecisionRequest} {contentType idem authorization : String} {body : Bytes}
    {e : APIError} (refused : processLocally hmac auth read contentType idem authorization body =
      .error e) :
    e = ⟨400, "invalid_json", "malformed JSON body"⟩ ∨
      e = ⟨400, "invalid_json", "unexpected trailing data"⟩ ∨
      e.status ∈ [401, 403, 413, 415, 422, 503] := by
  unfold processLocally at refused
  split at refused
  · cases refused
    exact Or.inr (Or.inr (by decide))
  split at refused
  · cases refused
    exact Or.inr (Or.inr (by decide))
  split at refused
  · cases refused
    exact Or.inr (Or.inr (by decide))
  split at refused
  · cases refused
    exact Or.inr (Or.inr (by decide))
  · cases refused
    exact Or.inr (Or.inr (by decide))
  cases decoded : decodeDecision read body with
  | error other =>
      rw [decoded] at refused
      cases refused
      unfold decodeDecision at decoded
      split at decoded
      · cases decoded
        exact Or.inl rfl
      · cases decoded
        exact Or.inl rfl
      · split at decoded
        · cases decoded
          exact Or.inr (Or.inr (by decide))
        · cases decoded
          exact Or.inl rfl
      · split at decoded
        · cases decoded
          exact Or.inr (Or.inl rfl)
        · cases decoded
  | ok req =>
      rw [decoded] at refused
      simp only [bind, Except.bind] at refused
      split at refused
      · cases refused
        exact Or.inr (Or.inr (show 422 ∈ _ by decide))
      · split at refused <;> cases refused
        exact Or.inr (Or.inr (by decide))

theorem writeReject_status (reqID : String) (result : Result) :
    (writeReject reqID result).status ∈ [401, 403, 404, 409, 422] := by
  unfold writeReject
  split <;> simp [writeAPIError, writeJSON]

theorem mapProposeError_status (reqID : String) (e : ProposeError) :
    (mapProposeError reqID e).status ∈ [503, 504] := by
  unfold mapProposeError
  split <;> simp [retryLater, writeAPIError, writeJSON, retryable]

theorem writeResult_status (rfc3339 : Int64 → String) (result : Result) :
    (writeResult rfc3339 reqID result).status ≠ 400 := by
  unfold writeResult
  split
  · intro same
    have listed := writeReject_status reqID result
    rw [same] at listed
    exact absurd listed (by decide)
  split
  · simp [retryLater, writeAPIError, writeJSON, retryable]
  · rw [decisionAnswer]
    split <;> simp [writeJSON]

theorem answered_malformed (status : (h.processLocally runtime reqID r).response.status = 400) :
    (h.processLocally runtime reqID r).response =
        writeAPIError reqID ⟨400, "invalid_json", "malformed JSON body"⟩ ∨
      (h.processLocally runtime reqID r).response =
        writeAPIError reqID ⟨400, "invalid_json", "unexpected trailing data"⟩ := by
  unfold DecisionHandler.processLocally at status ⊢
  split
  · rename_i e refused
    rw [refused] at status
    simp only [refuse] at status ⊢
    split at status
    · cases status
    · rename_i other
      rw [if_neg other]
      rcases processLocally_error refused with rfl | rfl | listed
      · exact Or.inl rfl
      · exact Or.inr rfl
      · rw [show e.status = 400 from status] at listed
        exact absurd listed (by decide)
  · rename_i p accepted
    rw [accepted] at status
    dsimp only at status
    split at status
    · rename_i e _
      have listed := mapProposeError_status reqID e
      rw [status] at listed
      exact absurd listed (by decide)
    · cases status
    · exact absurd status (writeResult_status _ _)

theorem error_json_message {reqID code left right : String} (filled : left ≠ "")
    (full : right ≠ "")
    (same : APIError.json ⟨400, code, left⟩ reqID = APIError.json ⟨400, code, right⟩ reqID) :
    string left = string right := by
  simp only [APIError.json, object, field, if_neg filled, if_neg full, List.cons_append,
    List.nil_append, List.intercalate_cons_cons, List.intercalate_singleton, List.append_assoc,
    List.cons.injEq, true_and, List.append_cancel_left_eq, List.append_cancel_right_eq] at same
  split at same
  · simpa using same
  · simpa using same

theorem unread_differs (reqID : String) {message : String}
    (other : message = "malformed JSON body" ∨ message = "unexpected trailing data") :
    writeAPIError reqID ⟨400, "invalid_json", "could not read request body"⟩ ≠
      writeAPIError reqID ⟨400, "invalid_json", message⟩ := by
  intro same
  have texts : APIError.json ⟨400, "invalid_json", "could not read request body"⟩ reqID =
      APIError.json ⟨400, "invalid_json", message⟩ reqID :=
    List.append_cancel_right (congrArg HTTPResponse.body same)
  rcases other with rfl | rfl
  · exact absurd (error_json_message (by decide) (by decide) texts) (by decide +kernel)
  · exact absurd (error_json_message (by decide) (by decide) texts) (by decide +kernel)

end Relaying

/-- A follower that knows the leader answers as the leader would have answered the same
request itself, with the same command proposed, if and only if the body is within
the limit. A longer one is refused as unreadable, with nothing proposed. -/
theorem forward_transparent_iff (runtime : Runtime) (mesh : Mesh) (h leader : DecisionHandler)
    (url leaderID leaderURL self : String) (role : Role) (r : HTTPRequest)
    (others copies : List (DecisionHandler × Bool)) (front : mesh [] url = (h, true) :: others)
    (status : h.status = some (role, leaderID)) (follows : role ≠ .leader) (known : leaderID ≠ "")
    (listed : h.peerURLs.lookup leaderID = some leaderURL)
    (back : mesh [0] (trimRight '/' leaderURL ++ "/v1/decisions") = (leader, true) :: copies)
    (leads : leader.status = some (.leader, self)) (first : r.forwarded = "") :
    (exchange runtime mesh 2 [] url r =
        exchange runtime (fun _ _ => [({ leader with requestBytes := h.requestBytes }, true)])
          1 [] url r ↔
      r.body.length ≤ maxDecisionBody) ∧
    (maxDecisionBody < r.body.length → exchange runtime mesh 2 [] url r =
      (.answered (writeAPIError (requestID r h.requestBytes)
        ⟨400, "invalid_json", "could not read request body"⟩), [])) := by
  have direct : exchange runtime
      (fun _ _ => [({ leader with requestBytes := h.requestBytes }, true)]) 1 [] url r =
      (.answered (leader.processLocally runtime (requestID r h.requestBytes) r).response,
        (leader.processLocally runtime (requestID r h.requestBytes) r).proposed) := by
    simp only [exchange, attempts, DecisionHandler.handleDecision, leads, if_true]
    rfl
  have through : exchange runtime mesh 2 [] url r =
      (.answered (forward (exchange runtime mesh 1 [0]) leaderURL
          (requestID r h.requestBytes) r).response,
        (forward (exchange runtime mesh 1 [0]) leaderURL
          (requestID r h.requestBytes) r).proposed) := by
    rw [exchange, front]
    simp only [attempts, DecisionHandler.handleDecision, status, follows, first, known, listed,
      if_false, if_true, ne_eq, not_true_eq_false]
  have refused (long : maxDecisionBody < r.body.length) : exchange runtime mesh 2 [] url r =
      (.answered (writeAPIError (requestID r h.requestBytes)
        ⟨400, "invalid_json", "could not read request body"⟩), []) := by
    rw [through, forward, if_pos long]
  refine ⟨⟨fun same => ?_, fun short => ?_⟩, refused⟩
  · by_contra long
    rw [refused (not_le.mp long), direct, Prod.mk.injEq, Sent.answered.injEq] at same
    rcases answered_malformed (congrArg HTTPResponse.status same.1).symm with answer | answer
    · exact unread_differs _ (Or.inl rfl) (same.1.trans answer)
    · exact unread_differs _ (Or.inr rfl) (same.1.trans answer)
  · -- the leader keeps the request id it was sent, and reads nothing else that differs
    have kept : requestID { r with requestID := requestID r h.requestBytes, forwarded := "1" }
        leader.requestBytes = requestID r h.requestBytes :=
      if_pos (requestID_valid r h.requestBytes)
    have sent : exchange runtime mesh 1 [0] (trimRight '/' leaderURL ++ "/v1/decisions")
        { r with requestID := requestID r h.requestBytes, forwarded := "1" } =
        (.answered (leader.processLocally runtime (requestID r h.requestBytes) r).response,
          (leader.processLocally runtime (requestID r h.requestBytes) r).proposed) := by
      rw [exchange, back]
      simp only [attempts, DecisionHandler.handleDecision, leads, if_true, kept]
      rfl
    rw [through, direct, forward, if_neg (not_lt.mpr short), sent]
    dsimp only
    rw [relayed processLocally_requestID]

section Sample

section Leader

variable {auth : APIKeyAuthenticator} {client : Client}
  (accepted : auth.authenticate (· ++ ·) (bytesOf sampleKey.1) = .ok client)
  (named : client.id = "client-a") (permitted : client.allowsPolicy "orders" = true)

include accepted named permitted

theorem sampleHandler_payload (length : Nat) : processLocally threeTokens.hmac auth threeTokens.read
    (threeTokensRequest length).contentType (threeTokensRequest length).idempotencyKey
    (threeTokensRequest length).authorization (threeTokensRequest length).body =
      .ok ⟨"client-a", "orders", "alice", 3, "request-000000001", "client"⟩ := by
  have token : bearerToken (threeTokensRequest length).authorization = some sampleKey.1 := by
    change bearerToken ("Bearer " ++ sampleKey.1) = some sampleKey.1
    decide +kernel
  have valid : validateDecisionInput "orders" "alice" "request-000000001" 3 = .ok () := by
    decide +kernel
  have decoded : decodeDecision threeTokens.read (threeTokensRequest length).body =
      .ok ⟨"orders", "alice", 3⟩ := rfl
  have known : auth.authenticate threeTokens.hmac (bytesOf sampleKey.1) = .ok client := accepted
  have typed : "application/json".toList <+: (threeTokensRequest length).contentType.toList :=
    List.prefix_refl _
  have keyed : (threeTokensRequest length).idempotencyKey ≠ "" :=
    show "request-000000001" ≠ "" by decide
  rw [processLocally, if_neg (not_not.mpr typed), if_neg keyed, token]
  dsimp only
  rw [known, decoded]
  simp only [bind, Except.bind, threeTokensRequest, valid, permitted, named, Bool.not_true,
    if_false, Bool.false_eq_true]

theorem sampleHandler_answers (hops length : Nat) (result : Result) :
    exchange threeTokens (fun _ _ => [(sampleHandler .leader auth result, true)]) (hops + 1) []
        "http://a" (threeTokensRequest length) =
      (.answered (writeResult (fun _ => "") (generateID "req_" sampleIDs) result),
        [decideCommand (sampleHandler .leader auth result)
          ⟨"client-a", "orders", "alice", 3, "request-000000001", "client"⟩]) := by
  have payload := sampleHandler_payload accepted named permitted length
  simp only [exchange, attempts, DecisionHandler.handleDecision, DecisionHandler.processLocally,
    sampleHandler, payload]
  rfl

end Leader

def sampleMesh : Mesh
  | [], _ => [(sampleHandler .follower ⟨[9], storeClients keyStore.2⟩ allowedResult, true)]
  | _, url =>
      if url = "http://b/v1/decisions" then
        [(sampleHandler .leader ⟨[9], storeClients keyStore.2⟩ allowedResult, true)]
      else []

theorem forward_transparent_sample :
    exchange threeTokens sampleMesh 2 [] "http://a" (threeTokensRequest 9) =
        (.answered (decisionAnswer (fun _ => "") (generateID "req_" sampleIDs) allowedRecord false),
          [decideCommand (sampleHandler .leader ⟨[9], storeClients keyStore.2⟩ allowedResult)
            ⟨"client-a", "orders", "alice", 3, "request-000000001", "client"⟩]) ∧
      exchange threeTokens sampleMesh 2 [] "http://a" (threeTokensRequest 65537) =
        (.answered (writeAPIError (generateID "req_" sampleIDs)
          ⟨400, "invalid_json", "could not read request body"⟩), []) := by
  have seen : (APIKeyAuthenticator.authenticate (· ++ ·) ⟨[9], storeClients keyStore.2⟩
      (bytesOf sampleKey.1)).toOption.map (fun client =>
        (client.id, client.allowsPolicy "orders")) = some ("client-a", true) := by decide +kernel
  obtain ⟨client, accepted, facts⟩ := toOption_ok seen
  obtain ⟨named, permitted⟩ := Prod.mk.inj facts
  have reached : sampleMesh [0] (trimRight '/' "http://b/" ++ "/v1/decisions") =
      [(sampleHandler .leader ⟨[9], storeClients keyStore.2⟩ allowedResult, true)] := by
    rw [sampleMesh, if_pos (by decide)]
    simp
  have transparent (length : Nat) := forward_transparent_iff threeTokens sampleMesh
    (sampleHandler .follower ⟨[9], storeClients keyStore.2⟩ allowedResult)
    (sampleHandler .leader ⟨[9], storeClients keyStore.2⟩ allowedResult) "http://a" "b" "http://b/"
    "b" .follower (threeTokensRequest length) [] [] rfl rfl (by decide) (by decide) rfl reached rfl
    rfl
  have size (length : Nat) : (threeTokensRequest length).body.length = length :=
    List.length_replicate
  have drawn (length : Nat) : requestID (threeTokensRequest length) sampleIDs =
      generateID "req_" sampleIDs := if_neg (show ¬validRequestID "" = true by decide +kernel)
  refine ⟨((transparent 9).1.mpr (by rw [size]; decide)).trans
    (sampleHandler_answers accepted named permitted 0 9 allowedResult), ?_⟩
  exact ((transparent 65537).2 (by rw [size]; decide)).trans (by rw [← drawn 65537]; rfl)

end Sample

end QuorumLimiter.Api
