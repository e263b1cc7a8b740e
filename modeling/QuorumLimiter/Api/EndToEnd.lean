import QuorumLimiter.Api.Decision
import QuorumLimiter.Auth.Revocation
import QuorumLimiter.Limiter.Progress

/-!
A caller that sends one request again, to any node and after any failure. Two answers
with a decision, for one API key and one idempotency key, are answers about the same
record: the status, the Retry-After header and every field but `duplicate` are the same.
-/

namespace QuorumLimiter.Api

open Limiter Auth Relation

/-- The handler serves the request on a node of the cluster: it reads the clients of some
node's store, as they were at some time, and what it proposes is the command of a call
that returns the result. -/
structure Serving (c : Cluster AppState Result) (runtime : Runtime) (pepper : Bytes)
    (u : World AppState Result) (r : HTTPRequest) (h : DecisionHandler) : Prop where
  reads : ∃ w id, c.Reachable Plan.clean w ∧ c.Later Plan.clean w u ∧
    h.auth = ⟨pepper, storeClients (w.members id).store.app⟩
  proposes : ∀ p result, processLocally runtime.hmac h.auth runtime.read r.contentType
      r.idempotencyKey r.authorization r.body = .ok p →
    h.propose (decideCommand h p) = .ok (some result) →
    ∃ k entry, entry.command = decideCommand h p ∧ u.Returned k entry (some result)

theorem decides_decideCommand (sha256 : Bytes → Bytes) (quote : String → String)
    {entry : LogEntry} {h : DecisionHandler} {p : DecidePayload}
    (proposed : entry.command = decideCommand h p) : Decides (jsonLib sha256 quote) entry p := by
  have decoded :=
    encodeCommand_decoded sha256 quote (generateID "dcmd_" h.commandBytes) h.now (.decide p)
  rw [Decides, proposed]
  exact ⟨_, decoded, rfl, payload_decoded sha256 quote (.decide p)⟩

section Answers

variable {runtime : Runtime} {mesh : Mesh} {h : DecisionHandler} {r : HTTPRequest}
  {reqID : String} {resp : HTTPResponse}

def Decided (resp : HTTPResponse) : Prop := resp.status = 200 ∨ resp.status = 429

theorem not_decided (statuses : List Nat) (listed : resp.status ∈ statuses)
    (apart : 200 ∉ statuses ∧ 429 ∉ statuses) : ¬ Decided resp := by
  rintro (same | same) <;> rw [same] at listed
  · exact apart.1 listed
  · exact apart.2 listed

theorem not_decided_retry (reqID msg : String) : ¬ Decided (retryLater reqID msg) := by
  rintro (same | same) <;> cases same

theorem not_decided_malformed (reqID msg : String) :
    ¬ Decided (writeAPIError reqID ⟨400, "invalid_json", msg⟩) := by
  rintro (same | same) <;> cases same

theorem writeResult_decided {rfc3339 : Int64 → String} {result : Result}
    (decided : Decided (writeResult rfc3339 reqID result)) :
    ∃ d, result.decision = some d ∧
      writeResult rfc3339 reqID result = decisionAnswer rfc3339 reqID d result.duplicate := by
  unfold writeResult at decided ⊢
  split
  · rename_i rejected
    rw [if_pos rejected] at decided
    exact absurd decided (not_decided _ (writeReject_status _ result) (by decide))
  · rename_i accepted
    rw [if_neg accepted] at decided
    split
    · rename_i missing
      rw [missing] at decided
      exact absurd decided (not_decided_retry _ _)
    · rename_i d found
      exact ⟨d, found, rfl⟩

theorem processLocally_decided
    (decided : Decided (h.processLocally runtime reqID r).response) :
    ∃ p result d, Api.processLocally runtime.hmac h.auth runtime.read r.contentType
        r.idempotencyKey r.authorization r.body = .ok p ∧
      h.propose (decideCommand h p) = .ok (some result) ∧ result.decision = some d ∧
      (h.processLocally runtime reqID r).response =
        decisionAnswer runtime.rfc3339 reqID d result.duplicate := by
  unfold DecisionHandler.processLocally at decided ⊢
  split
  · rename_i e refused
    rw [refused] at decided
    simp only [refuse] at decided
    split at decided
    · exact absurd decided (not_decided_retry _ _)
    · rcases processLocally_error refused with rfl | rfl | listed
      · exact absurd decided (not_decided_malformed _ _)
      · exact absurd decided (not_decided_malformed _ _)
      · exact absurd decided (not_decided [401, 403, 413, 415, 422, 503] listed
          (by decide))
  · rename_i p accepted
    rw [accepted] at decided
    dsimp only at decided ⊢
    split
    · rename_i e failed
      rw [failed] at decided
      exact absurd decided (not_decided _ (mapProposeError_status _ e) (by decide))
    · rename_i missing
      rw [missing] at decided
      exact absurd decided (not_decided_retry _ _)
    · rename_i result answered
      rw [answered] at decided
      obtain ⟨d, found, same⟩ := writeResult_decided decided
      exact ⟨p, result, d, accepted, answered, found, same⟩

theorem exchange_decided (hops : Nat) (path : List Nat) (url : String) (r : HTTPRequest)
    {proposed : List Bytes}
    (got : exchange runtime mesh hops path url r = (.answered resp, proposed))
    (decided : Decided resp) :
    ∃ path url h p result d, (h, true) ∈ mesh path url ∧
      Api.processLocally runtime.hmac h.auth runtime.read r.contentType r.idempotencyKey
        r.authorization r.body = .ok p ∧
      h.propose (decideCommand h p) = .ok (some result) ∧ result.decision = some d ∧
      resp = decisionAnswer runtime.rfc3339 resp.requestID d result.duplicate := by
  induction hops generalizing path url r resp proposed with
  | zero => cases got
  | succ hops ih =>
      rw [exchange] at got
      obtain ⟨i, h, found, rfl⟩ := attempts_answered 0 _ got
      rcases handleDecision_cases runtime h (exchange runtime mesh hops (i :: path)) r with
        ⟨msg, handled⟩ | ⟨leaderID, leads, handled⟩ | ⟨leaderURL, _, handled⟩
      · rw [handled] at decided
        exact absurd decided (not_decided_retry _ _)
      · rw [handled] at decided ⊢
        obtain ⟨p, result, d, accepted, answered, made, same⟩ := processLocally_decided decided
        rw [processLocally_requestID]
        exact ⟨path, url, h, p, result, d, found, accepted, answered, made, same⟩
      · rw [handled] at decided ⊢
        unfold forward at decided ⊢
        split
        · rename_i long
          rw [if_pos long] at decided
          exact absurd decided (not_decided_malformed _ _)
        · rename_i short
          rw [if_neg short] at decided
          split
          · rename_i sent
            rw [sent] at decided
            exact absurd decided (not_decided_retry _ _)
          · rename_i sent
            rw [sent] at decided
            exact absurd decided (not_decided_retry _ _)
          · rename_i inner more sent
            rw [sent] at decided
            obtain ⟨path, url, h, p, result, d, found, accepted, answered, made, same⟩ :=
              ih (i :: path) _ _ sent decided
            refine ⟨path, url, h, p, result, d, found, accepted, answered, made, ?_⟩
            dsimp only
            rw [same, decisionAnswer, decisionAnswer]
            split <;> rfl

end Answers

section Clients

variable {lib : Stdlib} {c : Cluster AppState Result} {u : World AppState Result}
  {order : List LogEntry} {hmac : Bytes → Bytes → Bytes} {pepper rawKey : Bytes}

/-- A key stands for one client at all times: the later of two states of one log still
has the client the earlier one found, under the same prefix. -/
theorem authenticate_same {early late : Nat} (ordered : early ≤ late)
    {first second : Nat × AppState}
    (before : replay (some (applyFunc lib)) 1 (order.take early) (0, AppState.migrated) = .ok first)
    (after : replay (some (applyFunc lib)) 1 (order.take late) (0, AppState.migrated) = .ok second)
    {client other : Client}
    (accepted : APIKeyAuthenticator.authenticate hmac ⟨pepper, storeClients first.2⟩ rawKey =
      .ok client)
    (again : APIKeyAuthenticator.authenticate hmac ⟨pepper, storeClients second.2⟩ rawKey =
      .ok other) : client.id = other.id := by
  obtain ⟨keyed, indexed⟩ := replay_clients before
  obtain ⟨keyedLater, indexedLater⟩ := replay_clients after
  obtain ⟨keyPrefix, secret, shape, length, _, stored, _, prefixed, _⟩ :=
    (authenticate_ok_iff keyed indexed client).mp accepted
  obtain ⟨again', rest, sameShape, sameLength, _, storedLater, _, prefixedLater, _⟩ :=
    (authenticate_ok_iff keyedLater indexedLater other).mp again
  obtain rfl : keyPrefix = again' := by
    have same := List.append_cancel_left (shape.symm.trans sameShape)
    rw [List.append_assoc, List.append_assoc] at same
    exact (List.append_inj same (length.trans sameLength.symm)).1
  have cut : order.take late = order.take early ++ (order.take late).drop early := by
    conv_lhs => rw [← List.take_append_drop early (order.take late)]
    rw [List.take_take, Nat.min_eq_left ordered]
  rw [cut] at after
  obtain ⟨middle, reached, more⟩ := replay_split _ _ _ _ _ after
  obtain rfl : middle = first := Except.ok.inj (reached.symm.trans before)
  have finished := replay_finish lib _ _ middle second middle.1 more
  have held := finished ▸ held_history middle _ keyed stored
  have kept : ∃ later, second.2.getClient client.id = some later ∧
      bytesOf later.keyPrefix = keyPrefix := by
    unfold Auth.Held at held
    split at held
    · obtain ⟨later, found, _, same⟩ := held
      exact ⟨later, found, by rw [same, prefixed]⟩
    · exact ⟨client, held, prefixed⟩
  have first := (indexedLater keyPrefix client.id).mpr kept
  have second := (indexedLater keyPrefix other.id).mpr ⟨other, storedLater, prefixedLater⟩
  exact Option.some.inj (first.symm.trans second)

theorem serving_same {runtime : Runtime} {r s : HTTPRequest} {h again : DecisionHandler}
    (machine : c.apply = some (applyFunc lib))
    (fresh : c.app = AppState.migrated) (linear : Linearizes c u order)
    (serving : Serving c runtime pepper u r h)
    (servingAgain : Serving c runtime pepper u s again)
    {client other : Client} (accepted : h.auth.authenticate hmac rawKey = .ok client)
    (acceptedAgain : again.auth.authenticate hmac rawKey = .ok other) : client.id = other.id := by
  obtain ⟨w, id, early, run, reads⟩ := serving.reads
  obtain ⟨v, node, late, more, readsAgain⟩ := servingAgain.reads
  have first := (linear.states w early run id).2
  have second := (linear.states v late more node).2
  rw [machine, fresh] at first second
  rw [reads] at accepted
  rw [readsAgain] at acceptedAgain
  rcases Nat.le_total (w.members id).store.lastApplied (v.members node).store.lastApplied with
    ordered | ordered
  · exact authenticate_same ordered first second accepted acceptedAgain
  · exact (authenticate_same ordered second first acceptedAgain accepted).symm

end Clients

/-- Two requests with one API key and one idempotency key, sent to any nodes at any
times, directly or through followers, on a cluster that prunes nothing. If both are
answered with a decision, both answers are about the same record. -/
theorem retried_request_same_decision (c : Cluster AppState Result) (sha256 : Bytes → Bytes)
    (quote : String → String) (machine : c.apply = some (applyFunc (jsonLib sha256 quote)))
    (fresh : c.app = AppState.migrated) (u : World AppState Result)
    (reachable : c.Reachable Plan.clean u) (unpruned : Unpruned (jsonLib sha256 quote) u)
    (runtime : Runtime) (pepper : Bytes) (mesh again : Mesh) (url other : String)
    (r s : HTTPRequest)
    (serving : ∀ path url, ∀ arrival ∈ mesh path url,
      Serving c runtime pepper u r arrival.1)
    (servingAgain : ∀ path url, ∀ arrival ∈ again path url,
      Serving c runtime pepper u s arrival.1) (key : r.authorization = s.authorization)
    (idem : r.idempotencyKey = s.idempotencyKey) (resp answer : HTTPResponse)
    (proposed proposedAgain : List Bytes)
    (got : exchange runtime mesh 2 [] url r = (.answered resp, proposed))
    (gotAgain : exchange runtime again 2 [] other s = (.answered answer, proposedAgain))
    (decided : Decided resp) (decidedAgain : Decided answer) :
    ∃ d first second, resp = decisionAnswer runtime.rfc3339 resp.requestID d first ∧
      answer = decisionAnswer runtime.rfc3339 answer.requestID d second := by
  obtain ⟨_, _, h, p, result, d, found, accepted, returned, made, same⟩ :=
    exchange_decided 2 [] url r got decided
  obtain ⟨_, _, g, q, resultAgain, e, foundAgain, acceptedAgain, returnedAgain, madeAgain,
    sameAgain⟩ := exchange_decided 2 [] other s gotAgain decidedAgain
  have first := serving _ _ _ found
  have second := servingAgain _ _ _ foundAgain
  obtain ⟨j, entry, asked, call⟩ := first.proposes p result accepted returned
  obtain ⟨k, twin, askedAgain, callAgain⟩ := second.proposes q resultAgain acceptedAgain
    returnedAgain
  obtain ⟨rawKey, client, req, token, authenticated, _, _, _, rfl⟩ :=
    processLocally_accepted accepted
  obtain ⟨rawAgain, clientAgain, reqAgain, tokenAgain, authenticatedAgain, _, _, _, rfl⟩ :=
    processLocally_accepted acceptedAgain
  rw [key] at token
  obtain rfl : rawKey = rawAgain := Option.some.inj (token.symm.trans tokenAgain)
  obtain ⟨top, greatest⟩ := highest_commit reachable
  have linear := longest_linearizes (applyFunc_machine machine) reachable greatest
  have clients := serving_same machine fresh linear first second authenticated authenticatedAgain
  obtain ⟨rfl, _, _⟩ := decisions_agree machine reachable unpruned linear call callAgain
    (decides_decideCommand sha256 quote asked) (decides_decideCommand sha256 quote askedAgain)
    clients idem made madeAgain
  exact ⟨d, result.duplicate, resultAgain.duplicate, same, sameAgain⟩

section Sample

def jsonCluster : Cluster AppState Result := { limiterTrio with apply := some (applyFunc plainLib) }

def ordersCommand : Bytes :=
  encodeCommand "policy" .createPolicy 0
    (CreatePolicyPayload.json ⟨"orders", "Orders", 5, 2, 1000, 5, true⟩)

def clientCommand : Bytes :=
  encodeCommand "client" .createClient 0 (createClientFormat.json
    ⟨"client-a", "Client A", sampleKey.2, [9] ++ bytesOf sampleKey.1, ["*"]⟩)

def threeTokensCommand : Bytes :=
  encodeCommand (generateID "dcmd_" sampleIDs) .decide 0
    (DecidePayload.json ⟨"client-a", "orders", "alice", 3, "request-000000001", "client"⟩)

/-- The leader of the cluster, when its call returns the result. -/
def leaderHandler (u : World AppState Result) (result : Result) : DecisionHandler :=
  sampleHandler .leader ⟨[9], storeClients (u.members "a").store.app⟩ result

section Leader

variable {u : World AppState Result} {d : DecisionRecord} {client : Client}
  (accepted : APIKeyAuthenticator.authenticate (· ++ ·)
    ⟨[9], storeClients (u.members "a").store.app⟩ (bytesOf sampleKey.1) = .ok client)
  (named : client.id = "client-a") (permitted : client.allowsPolicy "orders" = true)

include accepted named permitted

theorem leaderHandler_answers {result : Result} (decided : result.decision = some d)
    (outcome : result.outcome = .allowed) (allowed : d.allowed = true) :
    ∃ proposed resp, exchange threeTokens (fun _ _ => [(leaderHandler u result, true)]) 2 []
        "http://a" (threeTokensRequest 9) = (.answered resp, proposed) ∧ Decided resp := by
  refine ⟨_, _, sampleHandler_answers accepted named permitted 1 9 result, ?_⟩
  rw [writeResult, if_neg (by rw [outcome]; decide), decided]
  dsimp only
  rw [decisionAnswer, if_pos allowed]
  exact Or.inl rfl

theorem leaderHandler_serving (reachable : jsonCluster.Reachable Plan.clean u) {k index : Nat}
    {result : Result}
    (returned : u.Returned k ⟨index, 1, .command, threeTokensCommand⟩ (some result)) :
    Serving jsonCluster threeTokens [9] u (threeTokensRequest 9) (leaderHandler u result) := by
  refine ⟨⟨u, "a", reachable, ReflTransGen.refl, rfl⟩, ?_⟩
  intro p answer passed came
  cases (sampleHandler_payload accepted named permitted 9).symm.trans passed
  cases came
  refine ⟨k, ⟨index, 1, .command, threeTokensCommand⟩, ?_, returned⟩
  simp only [threeTokensCommand, decideCommand, leaderHandler, sampleHandler]

end Leader

theorem retried_request_same_decision_sample : ∃ u result again resp answer d first second,
    jsonCluster.Reachable Plan.clean u ∧
    (exchange threeTokens (fun _ _ => [(leaderHandler u result, true)]) 2 [] "http://a"
      (threeTokensRequest 9)).1 = .answered resp ∧
    (exchange threeTokens (fun _ _ => [(leaderHandler u again, true)]) 2 [] "http://a"
      (threeTokensRequest 9)).1 = .answered answer ∧
    resp = decisionAnswer (fun _ => "") resp.requestID d first ∧
    answer = decisionAnswer (fun _ => "") answer.requestID d second := by
  obtain ⟨u, reachable, seen⟩ := smoothly_reached jsonCluster smooth_clean
    (electFirst ++ [ordersCommand, clientCommand, threeTokensCommand, threeTokensCommand].map
      (.propose "a") ++ [.deliver 10, .respond 10 1, .collect 2, .collect 3])
    (fun u => (u.proposals.map fun call => (call.entry, returnedAs (fun result =>
        decide (result.outcome = .allowed ∧ result.decision.map (·.allowed) = some true)) call.state),
      (APIKeyAuthenticator.authenticate (· ++ ·) ⟨[9], storeClients (u.members "a").store.app⟩
        (bytesOf sampleKey.1)).toOption.map fun client =>
          (client.id, client.allowsPolicy "orders")))
    (by decide +kernel : _ = some ([(⟨2, 1, .command, ordersCommand⟩, none),
      (⟨3, 1, .command, clientCommand⟩, none), (⟨4, 1, .command, threeTokensCommand⟩, some true),
      (⟨5, 1, .command, threeTokensCommand⟩, some true)], some ("client-a", true)))
  obtain ⟨calls, known⟩ := Prod.mk.inj seen
  obtain ⟨client, accepted, facts⟩ := toOption_ok known
  obtain ⟨named, permitted⟩ := Prod.mk.inj facts
  have place (k : Nat) := congrArg (fun calls => calls[k]?) calls
  simp only [List.getElem?_map] at place
  obtain ⟨result, returned, told⟩ := returnedAs_returned (place 2)
  obtain ⟨again, returnedAgain, toldAgain⟩ := returnedAs_returned (place 3)
  obtain ⟨outcome, decision⟩ := of_decide_eq_true told
  obtain ⟨outcomeAgain, decisionAgain⟩ := of_decide_eq_true toldAgain
  obtain ⟨d, decided, allowed⟩ := Option.map_eq_some_iff.mp decision
  obtain ⟨e, decidedAgain, allowedAgain⟩ := Option.map_eq_some_iff.mp decisionAgain
  have unpruned : Unpruned plainLib u := unpruned_of_calls calls (by decide +kernel)
  obtain ⟨proposed, resp, got, good⟩ :=
    leaderHandler_answers accepted named permitted decided outcome allowed
  obtain ⟨proposedAgain, answer, gotAgain, goodAgain⟩ :=
    leaderHandler_answers accepted named permitted decidedAgain outcomeAgain allowedAgain
  obtain ⟨d, first, second, same, sameAgain⟩ := retried_request_same_decision jsonCluster _ _ rfl
    rfl u reachable unpruned threeTokens [9] _ _ "http://a" "http://a" (threeTokensRequest 9)
    (threeTokensRequest 9)
    (by
      intro path url arrival found
      rw [List.mem_singleton.mp found]
      exact leaderHandler_serving accepted named permitted reachable returned)
    (by
      intro path url arrival found
      rw [List.mem_singleton.mp found]
      exact leaderHandler_serving accepted named permitted reachable returnedAgain)
    rfl rfl resp answer proposed proposedAgain got gotAgain good goodAgain
  exact ⟨u, result, again, resp, answer, d, first, second, reachable, congrArg Prod.fst got,
    congrArg Prod.fst gotAgain, same, sameAgain⟩

end Sample

end QuorumLimiter.Api
