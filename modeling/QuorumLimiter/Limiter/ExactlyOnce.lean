import QuorumLimiter.Limiter.Idempotency
import QuorumLimiter.Limiter.Replicated
import QuorumLimiter.Raft.Linearizable

/-!
Idempotency keys on the cluster. A request may be proposed many times, on different
leaders and in different terms, and each proposal may be committed or lost. All the
decisions returned for one client and key are one record, charged once.
-/

namespace QuorumLimiter.Limiter

open Relation

/-- The entry asks for a decision with this payload. -/
def Decides (lib : Stdlib) (entry : LogEntry) (p : DecidePayload) : Prop :=
  ∃ cmd, lib.command entry.command = some cmd ∧ cmd.type = .decide ∧
    lib.decide cmd.payload = some p

def Unpruned (lib : Stdlib) (w : World AppState Result) : Prop :=
  ∀ k origin entry cmd, registration w.proposals k = some (origin, entry) →
    lib.command entry.command = some cmd → cmd.type ≠ .prune

def SameRequest (p q : DecidePayload) : Prop :=
  p.policyID = q.policyID ∧ p.subject = q.subject ∧ p.cost = q.cost

section Replay

variable {lib : Stdlib} {clientID requestID : String} {d : DecisionRecord}

theorem transition_applied {index : Nat} {entry : LogEntry} {state next : Nat × AppState}
    {result : Option Result} (command : entry.kind = .command)
    (stepped : transition (some (applyFunc lib)) index entry state = .ok (result, next)) :
    ∃ cmd applied, lib.command entry.command = some cmd ∧ result = some applied ∧
      apply lib ⟨index, entry.term⟩ cmd state = .ok (applied, next) := by
  simp only [transition] at stepped
  split at stepped
  · contradiction
  · rename_i ran
    cases stepped
    have applied := mapError_ok ran
    unfold applyEntry at applied
    rw [if_neg (by simp [command])] at applied
    split at applied
    · contradiction
    · rename_i cmd decoded
      exact ⟨cmd, _, decoded, rfl, applied⟩

theorem replay_keeps (valid : AppState → Prop) (index : Nat) (entries : List LogEntry)
    (state after : Nat × AppState)
    (kept : ∀ entry ∈ entries, entry.kind = .command → ∀ ctx cmd app result next,
      lib.command entry.command = some cmd → Effect lib ctx cmd app result next → valid app →
        valid next)
    (replayed : replay (some (applyFunc lib)) index entries state = .ok after)
    (holds : valid state.2) : valid after.2 := by
  induction entries generalizing index state with
  | nil =>
      cases replayed
      exact holds
  | cons entry rest ih =>
      simp only [replay] at replayed
      split at replayed
      · contradiction
      · rename_i stepped
        apply ih (index + 1) _ (fun later member => kept later (List.mem_cons_of_mem _ member))
          replayed
        by_cases command : entry.kind = .command
        · obtain ⟨cmd, applied, decoded, _, ran⟩ := transition_applied command stepped
          exact kept entry List.mem_cons_self command _ cmd _ applied _ decoded (apply_effect ran).2
            holds
        · simp only [transition, applyFunc, applyEntry, if_pos command, Except.mapError] at stepped
          cases stepped
          exact holds

theorem replay_record (index : Nat) (entries : List LogEntry) (state after : Nat × AppState)
    (unpruned : ∀ entry ∈ entries, entry.kind = .command →
      ∀ cmd, lib.command entry.command = some cmd → cmd.type ≠ .prune)
    (replayed : replay (some (applyFunc lib)) index entries state = .ok after)
    (found : state.2.decision clientID requestID = some d) :
    after.2.decision clientID requestID = some d := by
  refine replay_keeps (fun app => app.decision clientID requestID = some d) index entries state
    after ?_ replayed found
  intro entry member command ctx cmd app result next decoded effect stored
  exact effect_record effect
    (fun prune => absurd prune (unpruned entry member command cmd decoded)) stored

end Replay

section Order

variable {lib : Stdlib} {c : Cluster AppState Result} {u : World AppState Result}
  {order : List LogEntry}

theorem order_unpruned (unpruned : Unpruned lib u) (linear : Linearizes c u order)
    (entry : LogEntry) (member : entry ∈ order) (command : entry.kind = .command) (cmd : Command)
    (decoded : lib.command entry.command = some cmd) : cmd.type ≠ .prune := by
  obtain ⟨k, origin, called⟩ := linear.proposed entry member command
  exact unpruned k origin entry cmd (called_registered called) decoded

theorem decision_repeats (machine : c.apply = some (applyFunc lib))
    (reachable : c.Reachable Plan.clean u) (unpruned : Unpruned lib u)
    (linear : Linearizes c u order) {j k : Nat} {first second : LogEntry} {r s : Result}
    {p q : DecidePayload} {d e : DecisionRecord}
    (returned : u.Returned j first (some r)) (again : u.Returned k second (some s))
    (asked : Decides lib first p) (retried : Decides lib second q)
    (client : p.clientID = q.clientID) (key : p.requestID = q.requestID)
    (decided : r.decision = some d) (decidedAgain : s.decision = some e)
    (before : first.index < second.index) :
    e = d ∧ s.duplicate = true ∧ (DigestsApart lib p q → SameRequest p q) := by
  obtain ⟨cmd, decoded, _, payload⟩ := asked
  obtain ⟨other, decodedAgain, typedAgain, payloadAgain⟩ := retried
  obtain ⟨state, middle, last, next, between, inside, made, replayed, repeated'⟩ :=
    linearizes_between (linear.answers j first _ returned) (linear.answers k second _ again) before
  rw [machine] at made replayed repeated'
  obtain ⟨_, result, known, answer, ran⟩ :=
    transition_applied (returned_command reachable returned) made
  cases answer
  cases known.symm.trans decoded
  obtain ⟨stored, digest, shape⟩ := decide_stored (apply_effect ran).2 payload decided
  have kept := replay_record _ between middle last
    (fun entry member => order_unpruned unpruned linear entry (inside member)) replayed stored
  rw [client, key] at kept
  obtain ⟨_, result, known, answer, ranAgain⟩ :=
    transition_applied (returned_command reachable again) repeated'
  cases answer
  cases known.symm.trans decodedAgain
  obtain ⟨_, _, shapeAgain⟩ := decide_stored (apply_effect ranAgain).2 payloadAgain decidedAgain
  rw [decide_replay typedAgain payloadAgain shapeAgain kept] at ranAgain
  split at ranAgain
  · rename_i matching
    cases ranAgain
    cases decidedAgain
    exact ⟨rfl, rfl, fun apart => requestDigest_injective apart shape shapeAgain
      (digest.symm.trans matching)⟩
  · cases ranAgain
    cases decidedAgain

theorem decisions_agree (machine : c.apply = some (applyFunc lib))
    (reachable : c.Reachable Plan.clean u) (unpruned : Unpruned lib u)
    (linear : Linearizes c u order) {j k : Nat} {first second : LogEntry} {r s : Result}
    {p q : DecidePayload} {d e : DecisionRecord}
    (returned : u.Returned j first (some r)) (again : u.Returned k second (some s))
    (asked : Decides lib first p) (retried : Decides lib second q)
    (client : p.clientID = q.clientID) (key : p.requestID = q.requestID)
    (decided : r.decision = some d) (decidedAgain : s.decision = some e) :
    d = e ∧ (DigestsApart lib p q → SameRequest p q) ∧
      (r.duplicate = false → s.duplicate = false → j = k) := by
  rcases Nat.lt_trichotomy first.index second.index with before | same | after
  · obtain ⟨rfl, duplicate, request⟩ := decision_repeats machine reachable unpruned linear
      returned again asked retried client key decided decidedAgain before
    refine ⟨rfl, request, fun _ charged => ?_⟩
    rw [duplicate] at charged
    cases charged
  · -- one place in the order is one entry, one call and one answer
    obtain ⟨_, present, state, next, replayed, stepped⟩ := linear.answers j first _ returned
    obtain ⟨_, presentAgain, stateAgain, nextAgain, replayedAgain, steppedAgain⟩ :=
      linear.answers k second _ again
    rw [same] at present replayed stepped
    obtain rfl : first = second := Option.some.inj (present.symm.trans presentAgain)
    obtain rfl : state = stateAgain := Except.ok.inj (replayed.symm.trans replayedAgain)
    cases stepped.symm.trans steppedAgain
    cases decided.symm.trans decidedAgain
    obtain ⟨_, decoded, _, payload⟩ := asked
    obtain ⟨_, decodedAgain, _, payloadAgain⟩ := retried
    cases decoded.symm.trans decodedAgain
    cases payload.symm.trans payloadAgain
    exact ⟨rfl, fun _ => ⟨rfl, rfl, rfl⟩,
      fun _ _ => linear.apart j k first first _ _ returned again rfl⟩
  · obtain ⟨rfl, duplicate, request⟩ := decision_repeats machine reachable unpruned linear again
      returned retried asked client.symm key.symm decidedAgain decided after
    refine ⟨rfl, fun apart => ?_, fun charged => ?_⟩
    · obtain ⟨policy, subject, cost⟩ := request fun same => (apart same.symm).symm
      exact ⟨policy.symm, subject.symm, cost.symm⟩
    · rw [duplicate] at charged
      cases charged

end Order

/-- However often a request is proposed, and wherever, as long as nothing is pruned: any
two decisions returned for one client and idempotency key are the same record, and only
one of the calls was charged for it. Both asked for the same, unless the two requests
collide under the hash. -/
theorem decision_exactly_once (c : Cluster AppState Result) (lib : Stdlib)
    (machine : c.apply = some (applyFunc lib)) (u : World AppState Result)
    (reachable : c.Reachable Plan.clean u) (unpruned : Unpruned lib u) (j k : Nat)
    (first second : LogEntry) (r s : Result) (p q : DecidePayload) (d e : DecisionRecord)
    (returned : u.Returned j first (some r)) (again : u.Returned k second (some s))
    (asked : Decides lib first p) (retried : Decides lib second q)
    (client : p.clientID = q.clientID) (key : p.requestID = q.requestID)
    (decided : r.decision = some d) (decidedAgain : s.decision = some e) :
    d = e ∧ (DigestsApart lib p q → SameRequest p q) ∧
      (r.duplicate = false → s.duplicate = false → j = k) := by
  obtain ⟨top, greatest⟩ := highest_commit reachable
  exact decisions_agree machine reachable unpruned
    (longest_linearizes (applyFunc_machine machine) reachable greatest) returned again asked retried
    client key decided decidedAgain

theorem unpruned_of_calls {lib : Stdlib} {u : World AppState Result} {α : Type}
    {read : ProposalState Result → α} {calls : List (LogEntry × α)}
    (seen : u.proposals.map (fun call => (call.entry, read call.state)) = calls)
    (clean : ∀ call ∈ calls,
      (lib.command call.1.command).all (fun cmd => cmd.type ≠ .prune) = true) :
    Unpruned lib u := by
  intro k origin entry cmd registered decoded
  obtain ⟨call, found, same⟩ := Option.map_eq_some_iff.mp registered
  obtain ⟨rfl, rfl⟩ := Prod.mk.inj same
  have this := clean (call.entry, read call.state)
    (seen ▸ List.mem_map.mpr ⟨call, List.mem_of_getElem? found, rfl⟩)
  rw [decoded] at this
  exact of_decide_eq_true this

/-- A policy, a client, and the same request twice, the second a second later. -/
def retriedRequest : List (List UInt8) := [[0, 0, 5, 2], [3, 0], [5, 1, 1, 3], [5, 2, 1, 3]]

theorem decision_exactly_once_trio : ∃ u r s d, limiterTrio.Reachable Plan.clean u ∧
    u.Returned 2 ⟨4, 1, .command, [5, 1, 1, 3]⟩ (some r) ∧
    u.Returned 3 ⟨5, 1, .command, [5, 2, 1, 3]⟩ (some s) ∧
    r.decision = some d ∧ s.decision = some d ∧ r.duplicate = false ∧ s.duplicate = true := by
  obtain ⟨u, reachable, seen⟩ := smoothly_reached limiterTrio smooth_clean
    (electFirst ++ retriedRequest.map (.propose "a") ++
      [.deliver 10, .respond 10 1, .collect 2, .collect 3])
    (fun u => u.proposals.map fun call => (call.entry,
      returnedAs (fun result => (result.decision.isSome, result.duplicate)) call.state))
    (by decide +kernel : _ = some [(⟨2, 1, .command, [0, 0, 5, 2]⟩, none),
      (⟨3, 1, .command, [3, 0]⟩, none), (⟨4, 1, .command, [5, 1, 1, 3]⟩, some (true, false)),
      (⟨5, 1, .command, [5, 2, 1, 3]⟩, some (true, true))])
  have at' (k : Nat) := congrArg (fun calls => calls[k]?) seen
  simp only [List.getElem?_map] at at'
  obtain ⟨r, returned, facts⟩ := returnedAs_returned (at' 2)
  obtain ⟨s, again, factsAgain⟩ := returnedAs_returned (at' 3)
  obtain ⟨some, charged⟩ := Prod.mk.inj facts
  obtain ⟨someAgain, duplicate⟩ := Prod.mk.inj factsAgain
  obtain ⟨d, decided⟩ := Option.isSome_iff_exists.mp some
  obtain ⟨e, decidedAgain⟩ := Option.isSome_iff_exists.mp someAgain
  have unpruned : Unpruned sampleLib u := unpruned_of_calls seen (by decide +kernel)
  have asked : Decides sampleLib ⟨4, 1, .command, [5, 1, 1, 3]⟩ (sampleRequest 3) :=
    ⟨_, rfl, rfl, rfl⟩
  have retried : Decides sampleLib ⟨5, 1, .command, [5, 2, 1, 3]⟩ (sampleRequest 3) :=
    ⟨_, rfl, rfl, rfl⟩
  obtain ⟨rfl, _, _⟩ := decision_exactly_once limiterTrio sampleLib rfl u reachable unpruned 2 3 _ _
    r s _ _ d e returned again asked retried rfl rfl decided decidedAgain
  exact ⟨u, r, s, d, reachable, returned, again, decided, decidedAgain, charged, duplicate⟩

end QuorumLimiter.Limiter
