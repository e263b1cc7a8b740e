import QuorumLimiter.Api.Proposals
import QuorumLimiter.Limiter.Coherence
import QuorumLimiter.Limiter.Progress

/-!
The forms of the dashboard and the commands they propose, among them the quick decision
test, a decision under the client id `admin`. A client is only ever created under a
generated id, and these begin with `cli_`. So no store that the handlers of the node
can bring about holds the client the test asks for, and every test is rejected.
-/

namespace QuorumLimiter.Dashboard

open JsonText Limiter Auth

section Handlers

/-- `r.PostFormValue`, empty for a field that was not sent. -/
abbrev Form := String → String

/-- The digits after those that gave `n`. The first that leaves 64 bits ends the scan at
the largest value. -/
def parseUint (n : Nat) : List Char → Option Nat
  | [] => some n
  | c :: rest =>
      if !c.isDigit then none
      else if n * 10 + (c.toNat - '0'.toNat) ≥ 2 ^ 64 then some (2 ^ 64 - 1)
      else parseUint (n * 10 + (c.toNat - '0'.toNat)) rest

/-- The value of `strconv.ParseInt` at base ten and 64 bits, with its error dropped: zero
for what is not a number, the nearest bound for one that is too large. -/
def parseInt (text : String) : Int64 :=
  match text.toList with
  | '-' :: digits =>
      match parseUint 0 digits with
      | none => 0
      | some n => if n > 2 ^ 63 then Int64.minValue else Int64.ofInt (-n)
  | '+' :: digits => positive digits
  | digits => positive digits
where
  positive (digits : List Char) : Int64 :=
    match parseUint 0 digits with
    | none => 0
    | some n => if n ≥ 2 ^ 63 then Int64.maxValue else Int64.ofNat n

def formInt (form : Form) (key : String) : Int64 := parseInt (trimSpace (form key))

def createPolicy (form : Form) : CreatePolicyPayload where
  id := form "id"
  name := form "name"
  capacityTokens := formInt form "capacity_tokens"
  refillTokens := formInt form "refill_tokens"
  refillIntervalMS := formInt form "refill_interval_ms"
  maxCostTokens := formInt form "max_cost_tokens"
  active := form "active" = "true"

def updatePolicy (id : String) (form : Form) : UpdatePolicyPayload where
  id := id
  name := form "name"
  capacityTokens := formInt form "capacity_tokens"
  refillTokens := formInt form "refill_tokens"
  refillIntervalMS := formInt form "refill_interval_ms"
  maxCostTokens := formInt form "max_cost_tokens"
  expectedVersion := (formInt form "expected_version").toUInt64

def activation (id : String) (form : Form) : SetPolicyActivePayload where
  id := id
  active := form "active" = "true"
  expectedVersion := (formInt form "expected_version").toUInt64

def allowedPolicies (form : Form) : List String :=
  if form "allow_all" = "true" then ["*"]
  else ((form "allowed_policy_ids").splitOn ",").map trimSpace |>.filter (· ≠ "")

/-- What is proposed, or the text of the error flash. -/
def createClient (hmac : Bytes → Bytes → Bytes) (authn : APIKeyAuthenticator) (pb : Random 5)
    (sb : Random 32) (b : Random 10) (form : Form) : Except String CreateClientPayload :=
  Api.newClient "Key generation failed." "ID generation failed." hmac authn pb sb b (form "name")
    (allowedPolicies form)

def revokeClient (id : String) (form : Form) : Except String RevokeClientPayload :=
  if form "confirm" ≠ "true" then .error "Revocation not confirmed." else .ok { id }

/-- The error of `GenerateClientID` is dropped with its id left empty. -/
def testDecision (b : Random 10) (form : Form) : DecidePayload where
  clientID := "admin"
  policyID := form "policy_id"
  subject := form "subject"
  cost := formInt form "cost"
  requestID := "admintest-" ++ (generateClientID b).getD ""
  actorType := "admin"

/-- For every number but the least, which is neither a quotient nor a remainder by 1000. -/
def itoa (v : Int64) : String := toString v.toInt

def pad3 (v : Int64) : String :=
  String.ofList (List.replicate (3 - (itoa v).length) '0') ++ itoa v

def tokensStr (milli : Int64) : String := itoa (milli / 1000) ++ "." ++ pad3 (milli % 1000)

/-- The level and the text `testDecision` flashes for what `proposeCmd` returned. -/
def testDecisionFlash : Option Result → String × String
  | none => ("error", "Cluster unavailable; retry.")
  | some res =>
      match res.decision with
      | none => ("error", "Rejected: " ++ res.rejectMsg)
      | some d =>
          if d.allowed then ("success", "Allowed. Remaining: " ++ tokensStr d.remainingMilli)
          else ("info", "Denied. Retry after " ++ toString d.retryAfterMS.toInt ++ "ms")

end Handlers

section Proposing

/-- What the handlers of a node use besides their requests: the keyed hash, its pepper,
and a decoder for each kind of body. -/
structure Server where
  hmac : Bytes → Bytes → Bytes
  pepper : Bytes
  decision : Bytes → Read Api.DecisionRequest
  createPolicy : Bytes → Read CreatePolicyRequest
  updatePolicy : Bytes → Read Api.UpdatePolicyRequest
  activation : Bytes → Read Api.ActivationRequest
  createClient : Bytes → Read Api.CreateClientRequest
  revokeClient : Bytes → Read Api.RevokeClientRequest

/-- The payloads that some request makes a handler propose, whatever the store it reads
for it. -/
inductive Proposes (server : Server) : Payload → Prop
  | decision (clients : ClientReader) (contentType idem authorization : String) (body : Bytes)
      (p : DecidePayload)
      (ran : Api.processLocally server.hmac ⟨server.pepper, clients⟩ server.decision contentType
        idem authorization body = .ok p) : Proposes server (.decide p)
  | adminCreatePolicy (body : Bytes) (p : CreatePolicyPayload)
      (ran : Api.createPolicy server.createPolicy body = .ok p) : Proposes server (.createPolicy p)
  | adminUpdatePolicy (id : String) (body : Bytes) (p : UpdatePolicyPayload)
      (ran : Api.updatePolicy server.updatePolicy id body = .ok p) :
      Proposes server (.updatePolicy p)
  | adminChangeActivation (id : String) (body : Bytes) (p : SetPolicyActivePayload)
      (ran : Api.changeActivation server.activation id body = .ok p) :
      Proposes server (.setPolicyActive p)
  | adminCreateClient (clients : ClientReader) (pb : Random 5) (sb : Random 32) (b : Random 10)
      (body : Bytes) (p : CreateClientPayload)
      (ran : Api.createClient server.hmac ⟨server.pepper, clients⟩ server.createClient pb sb b
        body = .ok p) : Proposes server (.createClient p)
  | adminRevokeClient (id : String) (body : Bytes) (p : RevokeClientPayload)
      (ran : Api.revokeClient server.revokeClient id body = .ok p) :
      Proposes server (.revokeClient p)
  | createPolicy (form : Form) : Proposes server (.createPolicy (createPolicy form))
  | updatePolicy (id : String) (form : Form) :
      Proposes server (.updatePolicy (updatePolicy id form))
  | activation (id : String) (form : Form) :
      Proposes server (.setPolicyActive (activation id form))
  | createClient (clients : ClientReader) (pb : Random 5) (sb : Random 32) (b : Random 10)
      (form : Form) (p : CreateClientPayload)
      (ran : createClient server.hmac ⟨server.pepper, clients⟩ pb sb b form = .ok p) :
      Proposes server (.createClient p)
  | revokeClient (id : String) (form : Form) (p : RevokeClientPayload)
      (ran : revokeClient id form = .ok p) : Proposes server (.revokeClient p)
  | testDecision (b : Random 10) (form : Form) : Proposes server (.decide (testDecision b form))

def Proposed {lib : Stdlib} (server : Server) (codec : Codec lib) (cmd : Command) : Prop :=
  ∃ id now, ∃ payload : Payload, Proposes server payload ∧
    cmd = newCommand codec.marshal id payload.type now payload

variable {lib : Stdlib} {server : Server} {codec : Codec lib} {cmd : Command}

theorem proposed_createClient {p : CreateClientPayload} (proposed : Proposed server codec cmd)
    (typed : cmd.type = .createClient) (decoded : lib.createClient cmd.payload = some p) :
    ∃ b, generateClientID b = some p.id := by
  obtain ⟨id, now, payload, proposes, rfl⟩ := proposed
  have back := codec.payload payload
  cases payload with
  | createClient q =>
      cases back.symm.trans decoded
      cases proposes with
      | adminCreateClient clients pb sb b body p ran =>
          obtain ⟨req, _, ran⟩ := bind_ok ran
          exact ⟨b, Api.newClient_generated ran⟩
      | createClient clients pb sb b form p ran => exact ⟨b, Api.newClient_generated ran⟩
  | _ => cases typed

end Proposing

section Clients

def Generated (app : AppState) : Prop :=
  ∀ key client, app.clients.get key = some client → ∃ b, generateClientID b = some client.id

variable {lib : Stdlib} {server : Server} {codec : Codec lib} {ctx : ApplyContext} {cmd : Command}
  {app after : AppState} {result : Result}

theorem generated_effect (generated : Generated app) (proposed : Proposed server codec cmd)
    (effect : Effect lib ctx cmd app result after) : Generated after := by
  intro key client stored
  cases effect with
  | createdClient p name typed payload named listed filled absent free existing =>
      simp only [Bucket.get_put] at stored
      split at stored
      · cases stored
        exact proposed_createClient proposed typed payload
      · exact generated key client stored
  | revokedClient p old typed payload found active =>
      simp only [Bucket.get_put] at stored
      split at stored
      · cases stored
        exact generated _ old found
      · exact generated key client stored
  | _ => exact generated key client stored

theorem generated_finish (commands : List (ApplyContext × Command))
    (proposed : ∀ command ∈ commands, Proposed server codec command.2) :
    Generated (finish lib (0, AppState.migrated) commands).2 := by
  refine finish_keeps Generated (0, AppState.migrated) ?_ ?_
  · intro command member app result after generated effect
    exact generated_effect generated (proposed command member) effect
  · rintro key client ⟨⟩

theorem generateClientID_ne_admin (b : Random 10) : generateClientID b ≠ some "admin" := by
  intro same
  obtain ⟨bytes, _, text⟩ := Option.map_eq_some_iff.mp same
  have letters := congrArg String.toList text
  rw [String.toList_append] at letters
  cases letters

theorem admin_absent (keyed : Keyed app) (generated : Generated app) :
    app.getClient "admin" = none := by
  rw [Option.eq_none_iff_forall_ne_some]
  intro client stored
  obtain ⟨b, made⟩ := generated _ client stored
  rw [(keyed_getClient keyed stored).1] at made
  exact generateClientID_ne_admin b made

end Clients

section Testing

variable {lib : Stdlib} {ctx : ApplyContext} {app : AppState}

theorem decision_absent {clientID requestID : String} (coherent : Coherent app)
    (absent : app.getClient clientID = none) : app.decision clientID requestID = none := by
  rw [Option.eq_none_iff_forall_ne_some]
  intro d found
  obtain ⟨key, encoded, stored⟩ := lookupPair_eq_some_iff.mp found
  obtain ⟨own, _, known⟩ := coherent.records key d stored
  have parts := compositeKey_injective _ _ key own encoded
  have same : d.clientID = clientID := bytesOf_injective _ _ (List.cons.inj parts).1
  rw [same, absent] at known
  cases known

theorem decide_unknown {p : DecidePayload} (cmd : Command) (last : Nat) (coherent : Coherent app)
    (typed : cmd.type = .decide) (decoded : lib.decide cmd.payload = some p)
    (valid : validateDecisionInput p.policyID p.subject p.requestID p.cost = .ok ())
    (fits : RecordFits p.clientID p.requestID) (absent : app.getClient p.clientID = none) :
    apply lib ctx cmd (last, app) =
      .ok (rejection .decide .clientNotFound "unknown client", ctx.logIndex, app) := by
  obtain ⟨found, looked⟩ : ∃ found, app.getIdempotency p.clientID p.requestID = .ok found :=
    getIdempotency_returns fits
  have none : found = none := (getPair_ok looked).symm.trans (decision_absent coherent absent)
  subst none
  have refused : authorize app p = .error (.clientNotFound, "unknown client") := by
    rw [authorize, absent]
  have rejected : applyDecide lib ctx cmd app =
      .ok (rejection .decide .clientNotFound "unknown client", app) := by
    rw [applyDecide, unmarshalPayload_some decoded]
    simp only [bind, Except.bind, validated, valid, wrapped_ok looked, refused]
    rfl
  simp only [apply, Limiter.applyTx, typed, rejected]
  rfl

theorem requestID_valid (b : { bytes : Bytes // bytes.length = 10 }) (form : Form) :
    validateRequestID (testDecision (some b) form).requestID = .ok () := by
  have size : (testDecision (some b) form).requestID.utf8ByteSize = 30 := by
    have encoded := base32NoPad_length b.1
    rw [b.2, bytesOf_length] at encoded
    simp only [testDecision, generateClientID, Option.map_some, Option.getD_some,
      String.utf8ByteSize_append, encoded]
    decide
  have letters : matchesRequestID (testDecision (some b) form).requestID = true := by
    have digits : (base32NoPad b.1).toList.all
        (fun c => c.isAlphanum || c ∈ ['.', '_', '~', '-']) = true := by
      rw [base32NoPad, String.toList_ofList]
      exact BaseText.encode_all (by decide +kernel) (by decide) 5 b.1
    simp only [matchesRequestID, testDecision, generateClientID, Option.map_some, Option.getD_some,
      String.toList_append, List.all_append, digits]
    rfl
  rw [validateRequestID, size, letters]
  rfl

theorem testDecision_rejected (codec : Codec lib) (ctx : ApplyContext) (last : Nat)
    {policy : Policy} (coherent : Coherent app) (generated : Generated app) (form : Form)
    (listed : app.getPolicy (form "policy_id") = some policy)
    (subject : validateSubject (form "subject") = .ok ()) (least : 1 ≤ formInt form "cost")
    (b : { bytes : Bytes // bytes.length = 10 }) (id : String) (now : Int64) :
    apply lib ctx (newCommand codec.marshal id .decide now (.decide (testDecision (some b) form)))
        (last, app) =
      .ok (rejection .decide .clientNotFound "unknown client", ctx.logIndex, app) := by
  obtain ⟨own, shape, _⟩ := keyed_getPolicy coherent.keyed listed
  rw [own] at shape
  have request := requestID_valid b form
  have enough : ¬formInt form "cost" < 1 := Int64.not_lt.mpr least
  -- The payload is named, so that nothing below unfolds the parsing of its cost.
  generalize asked : testDecision (some b) form = p at request ⊢
  have client : p.clientID = "admin" := by simp only [← asked, testDecision]
  have valid : validateDecisionInput p.policyID p.subject p.requestID p.cost = .ok () := by
    have policyID : p.policyID = form "policy_id" := by simp only [← asked, testDecision]
    have subjectText : p.subject = form "subject" := by simp only [← asked, testDecision]
    have cost : p.cost = formInt form "cost" := by simp only [← asked, testDecision]
    simp only [policyID, subjectText, cost, validateDecisionInput, validatePolicyID, shape, subject,
      request, bind, Except.bind, if_true, if_neg enough]
  have fits : RecordFits p.clientID p.requestID := recordFits_short (by rw [client]; decide) request
  have absent : app.getClient p.clientID = none := by
    rw [client]
    exact admin_absent coherent.keyed generated
  exact decide_unknown _ last coherent rfl (codec.payload (.decide p)) valid fits absent

/-- The quick decision test never decides. In whatever store the commands of the handlers lead
to, for every policy of it, active or not, every valid subject and every cost from 1 on, the
command that the test proposes is rejected for its client and leaves all records as they were,
and so the operator is told. -/
theorem testDecision_never_decides (lib : Stdlib) (codec : Codec lib) (server : Server)
    (commands : List (ApplyContext × Command))
    (proposed : ∀ command ∈ commands, Proposed server codec command.2) (last : Nat) (app : AppState)
    (reached : finish lib (0, AppState.migrated) commands = (last, app)) (form : Form)
    (policy : Policy) (listed : app.getPolicy (form "policy_id") = some policy)
    (subject : validateSubject (form "subject") = .ok ()) (least : 1 ≤ formInt form "cost")
    (b : { bytes : Bytes // bytes.length = 10 }) (id : String) (now : Int64) (ctx : ApplyContext) :
    ∃ result, apply lib ctx
        (newCommand codec.marshal id .decide now (.decide (testDecision (some b) form)))
        (last, app) = .ok (result, ctx.logIndex, app) ∧
      result = rejection .decide .clientNotFound "unknown client" ∧
      testDecisionFlash (some result) = ("error", "Rejected: unknown client") := by
  have coherent : Coherent (finish lib (0, AppState.migrated) commands).2 :=
    coherent_finish _ commands coherent_migrated
  have generated := generated_finish commands proposed
  rw [reached] at coherent generated
  exact ⟨_, testDecision_rejected codec ctx last coherent generated form listed subject least b id
    now, rfl, rfl⟩

section Sample

def formOf (fields : List (String × String)) : Form := fun key => (fields.lookup key).getD ""

def ordersForm : Form :=
  formOf [("id", "orders"), ("name", "Orders"), ("capacity_tokens", "5"), ("refill_tokens", "1"),
    ("refill_interval_ms", "1000"), ("max_cost_tokens", "5"), ("active", "true")]

def quickForm : Form :=
  formOf [("policy_id", "orders"), ("subject", "demo_user_0042"), ("cost", "1")]

def ordersPolicy : Policy := (createPolicy ordersForm).policy "Orders" 1000

def ordersOpened {lib : Stdlib} (codec : Codec lib) : List (ApplyContext × Command) :=
  [(⟨1, 1⟩, newCommand codec.marshal "cmd" .createPolicy 1000
    (.createPolicy (createPolicy ordersForm)))]

theorem ordersOpened_proposed {lib : Stdlib} (codec : Codec lib) (server : Server) :
    ∀ command ∈ ordersOpened codec, Proposed server codec command.2 := by
  intro command member
  rw [List.mem_singleton.mp member]
  exact ⟨"cmd", 1000, _, .createPolicy ordersForm, rfl⟩

-- The codec stays a variable: only what the handlers read back is evaluated.
theorem ordersOpened_listed {lib : Stdlib} (codec : Codec lib) :
    (finish lib (0, AppState.migrated) (ordersOpened codec)).2.getPolicy (quickForm "policy_id") =
      some ordersPolicy := by
  have decoded : lib.createPolicy (codec.marshal (.createPolicy (createPolicy ordersForm))) =
      some (createPolicy ordersForm) := codec.payload (.createPolicy (createPolicy ordersForm))
  have shape : validatePolicyID (createPolicy ordersForm).id = .ok () := by decide +kernel
  have named : validateName (createPolicy ordersForm).name maxPolicyName = .ok "Orders" := by
    decide +kernel
  have fields : validatePolicyFields (createPolicy ordersForm).capacityTokens
      (createPolicy ordersForm).refillTokens (createPolicy ordersForm).refillIntervalMS
      (createPolicy ordersForm).maxCostTokens = .ok () := by decide +kernel
  simp only [ordersOpened, finish, apply, Limiter.applyTx, newCommand, applyCreatePolicy]
  rw [unmarshalPayload_some decoded]
  simp only [bind, Except.bind, validated, shape, named, fields]
  decide +kernel

def formsOnly : Server where
  hmac _ message := message
  pepper := []
  decision _ := .malformed
  createPolicy _ := .malformed
  updatePolicy _ := .malformed
  activation _ := .malformed
  createClient _ := .malformed
  revokeClient _ := .malformed

def zeros : { bytes : Bytes // bytes.length = 10 } := ⟨List.replicate 10 0, rfl⟩

theorem quickForm_subject : validateSubject (quickForm "subject") = .ok () := by decide +kernel

theorem quickForm_cost : 1 ≤ formInt quickForm "cost" := by decide +kernel

theorem testDecision_never_decides_orders :
    ∃ result, apply plainLib ⟨2, 1⟩
        (newCommand plainCodec.marshal "cmd" .decide 2000
          (.decide (testDecision (some zeros) quickForm)))
        ((finish plainLib (0, AppState.migrated) (ordersOpened plainCodec)).1,
          (finish plainLib (0, AppState.migrated) (ordersOpened plainCodec)).2) =
        .ok (result, 2, (finish plainLib (0, AppState.migrated) (ordersOpened plainCodec)).2) ∧
      result = rejection .decide .clientNotFound "unknown client" ∧
      testDecisionFlash (some result) = ("error", "Rejected: unknown client") :=
  testDecision_never_decides plainLib plainCodec formsOnly (ordersOpened plainCodec)
    (ordersOpened_proposed plainCodec formsOnly)
    (finish plainLib (0, AppState.migrated) (ordersOpened plainCodec)).1
    (finish plainLib (0, AppState.migrated) (ordersOpened plainCodec)).2 Prod.mk.eta.symm quickForm
    ordersPolicy (ordersOpened_listed plainCodec) quickForm_subject quickForm_cost zeros "cmd" 2000
    ⟨2, 1⟩

theorem ordersOpened_rejects {lib : Stdlib} (codec : Codec lib) (server : Server) :
    (apply lib ⟨2, 1⟩ (newCommand codec.marshal "cmd" .decide 2000
        (.decide (testDecision (some zeros) quickForm)))
        (finish lib (0, AppState.migrated) (ordersOpened codec))).map
      (fun ran => (ran.1.outcome, ran.1.rejectMsg)) = .ok (.rejected, "unknown client") := by
  have coherent : Coherent (finish lib (0, AppState.migrated) (ordersOpened codec)).2 :=
    coherent_finish _ _ coherent_migrated
  have generated := generated_finish _ (ordersOpened_proposed codec server)
  have rejected := testDecision_rejected codec ⟨2, 1⟩
    (finish lib (0, AppState.migrated) (ordersOpened codec)).1 coherent generated quickForm
    (ordersOpened_listed codec) quickForm_subject quickForm_cost zeros "cmd" 2000
  rw [Prod.mk.eta] at rejected
  rw [rejected]
  rfl

/-- One active policy, created by its form, then the test as the page offers it. -/
theorem quick_test_unknown_client :
    (∀ command ∈ ordersOpened plainCodec, Proposed formsOnly plainCodec command.2) ∧
    (finish plainLib (0, AppState.migrated) (ordersOpened plainCodec)).2.getPolicy
      (quickForm "policy_id") = some ordersPolicy ∧
    ordersPolicy.active = true ∧ validateSubject (quickForm "subject") = .ok () ∧
    1 ≤ formInt quickForm "cost" ∧ formInt quickForm "cost" ≤ ordersPolicy.maxCostTokens ∧
    (apply plainLib ⟨2, 1⟩ (newCommand plainCodec.marshal "cmd" .decide 2000
        (.decide (testDecision (some zeros) quickForm)))
        (finish plainLib (0, AppState.migrated) (ordersOpened plainCodec))).map
      (fun ran => (ran.1.outcome, ran.1.rejectMsg)) = .ok (.rejected, "unknown client") :=
  ⟨ordersOpened_proposed plainCodec formsOnly, ordersOpened_listed plainCodec, by decide +kernel,
    quickForm_subject, quickForm_cost, by decide +kernel, ordersOpened_rejects plainCodec formsOnly⟩

end Sample

end Testing

end QuorumLimiter.Dashboard
