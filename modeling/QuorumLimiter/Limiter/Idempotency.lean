import Mathlib
import QuorumLimiter.Limiter.Invariants

/-!
Exactly-once charging. A stored decision answers every later command with its
client and request id, until a prune removes it: the same request gets the stored
record, another request under the same ids is refused, and nothing is charged.
-/

namespace QuorumLimiter.Limiter

open JsonText (hexDigit)

section Digests

theorem hexDigit_injective : ∀ left < 16, ∀ right < 16, hexDigit left = hexDigit right →
    left = right := by decide

theorem encodeToString_injective (left right : Bytes)
    (same : encodeToString left = encodeToString right) : left = right := by
  replace same := String.ofList_inj.mp same
  induction left generalizing right with
  | nil =>
      cases right with
      | nil => rfl
      | cons other more => cases same
  | cons first rest ih =>
      cases right with
      | nil => cases same
      | cons other more =>
          simp only [List.flatMap_cons, List.cons_append, List.nil_append, List.cons.injEq] at same
          obtain ⟨high, low, same⟩ := same
          have bound := first.toNat_lt
          have limit := other.toNat_lt
          replace high := hexDigit_injective _ (by omega) _ (by omega) high
          replace low := hexDigit_injective _ (by omega) _ (by omega) low
          rw [ih more same, UInt8.toNat_inj.mp (show first.toNat = other.toNat by omega)]

theorem separated_injective {α : Type} {mark : α} {left right leftRest rightRest : List α}
    (first : mark ∉ left) (second : mark ∉ right)
    (same : left ++ mark :: leftRest = right ++ mark :: rightRest) :
    left = right ∧ leftRest = rightRest := by
  induction left generalizing right with
  | nil =>
      cases right with
      | nil => exact ⟨rfl, (List.cons.inj same).2⟩
      | cons other more => exact absurd (by simp [(List.cons.inj same).1]) second
  | cons head rest ih =>
      cases right with
      | nil => exact absurd (by simp [(List.cons.inj same).1]) first
      | cons other more =>
          obtain ⟨heads, tails⟩ := List.cons.inj same
          obtain ⟨rests, after⟩ := ih (fun member => first (by simp [member]))
            (fun member => second (by simp [member])) tails
          exact ⟨by rw [heads, rests], after⟩

theorem matchesPolicyID_newline {id : String} (shape : matchesPolicyID id = true) :
    '\n' ∉ id.toList := by
  unfold matchesPolicyID at shape
  split at shape
  · contradiction
  · rename_i first rest text
    simp only [Bool.and_eq_true, List.all_eq_true, decide_eq_true_eq] at shape
    rw [text]
    intro member
    rcases List.mem_cons.mp member with rfl | later
    · exact absurd shape.1.1.1 (by decide)
    · exact absurd (shape.2 _ later) (by decide)

theorem matchesSubject_newline {subject : String} (shape : matchesSubject subject = true) :
    '\n' ∉ subject.toList := by
  unfold matchesSubject at shape
  simp only [Bool.and_eq_true, List.all_eq_true] at shape
  intro member
  exact absurd (shape.2 _ member) (by decide)

theorem toString_injective {left right : Int} (low : 0 ≤ left) (high : 0 ≤ right)
    (same : toString left = toString right) : left = right := by
  obtain ⟨first, rfl⟩ := Int.eq_ofNat_of_zero_le low
  obtain ⟨second, rfl⟩ := Int.eq_ofNat_of_zero_le high
  exact congrArg Int.ofNat (Nat.repr_injective same)

theorem digestPreimage_injective {policyID subject otherID other : String} {cost price : Int64}
    (policy : matchesPolicyID policyID = true) (shape : matchesSubject subject = true)
    (low : 0 ≤ cost.toInt) (otherPolicy : matchesPolicyID otherID = true)
    (otherShape : matchesSubject other = true) (otherLow : 0 ≤ price.toInt)
    (same : digestPreimage policyID subject cost = digestPreimage otherID other price) :
    policyID = otherID ∧ subject = other ∧ cost = price := by
  have text := congrArg String.toList same
  simp only [digestPreimage, String.toList_append, List.append_assoc] at text
  obtain ⟨ids, text⟩ := separated_injective (matchesPolicyID_newline policy)
    (matchesPolicyID_newline otherPolicy) text
  obtain ⟨subjects, text⟩ := separated_injective (matchesSubject_newline shape)
    (matchesSubject_newline otherShape) text
  refine ⟨String.toList_inj.mp ids, String.toList_inj.mp subjects, Int64.toInt_inj.mp ?_⟩
  exact toString_injective low otherLow (String.toList_inj.mp text)

end Digests

section Records

variable {lib : Stdlib} {ctx : ApplyContext} {cmd : Command} {app after : AppState}
  {result : Result} {clientID requestID : String} {d : DecisionRecord}

theorem decision_deleted (keys : List Bytes)
    (present : (lookupPair (keys.foldl Bucket.delete app.idempotency) (bytesOf clientID)
      (bytesOf requestID)).isSome)
    (found : app.decision clientID requestID = some d) :
    lookupPair (keys.foldl Bucket.delete app.idempotency) (bytesOf clientID) (bytesOf requestID) =
      some d := by
  obtain ⟨left, present⟩ := Option.isSome_iff_exists.mp present
  obtain ⟨key, encoded, stored⟩ := lookupPair_eq_some_iff.mp found
  obtain ⟨again, same, kept⟩ := lookupPair_eq_some_iff.mp present
  cases encoded.symm.trans same
  refine lookupPair_eq_some_iff.mpr ⟨key, encoded, ?_⟩
  rw [Bucket.get_foldl_delete] at kept ⊢
  split at kept
  · cases kept
  · rename_i outside
    rw [if_neg outside]
    exact stored

theorem effect_record (effect : Effect lib ctx cmd app result after)
    (kept : cmd.type = .prune → (after.decision clientID requestID).isSome)
    (found : app.decision clientID requestID = some d) :
    after.decision clientID requestID = some d := by
  -- Only a prune loses a record, and nothing replaces one.
  cases effect with
  | charged p policy bucket settled allowed retryAfter tokenBuckets idempotency typed payload shape
      fresh authorized loaded spent charged recorded =>
      refine (lookupPair_stored recorded _ _).trans ?_
      rw [if_neg]
      · exact found
      · rintro ⟨rfl, rfl⟩
        cases fresh.symm.trans found
  | pruned p typed payload => exact decision_deleted _ (kept typed) found
  | _ => exact found

theorem decide_stored {p : DecidePayload} (effect : Effect lib ctx cmd app result after)
    (payload : lib.decide cmd.payload = some p) (decision : result.decision = some d) :
    after.decision p.clientID p.requestID = some d ∧
      d.requestDigest = requestDigest lib p.policyID p.subject p.cost ∧
      validateDecisionInput p.policyID p.subject p.requestID p.cost = .ok () := by
  cases effect with
  | replayed q prior typed again shape found same =>
      cases payload.symm.trans again
      cases decision
      exact ⟨found, same, shape⟩
  | charged q policy bucket settled allowed retryAfter tokenBuckets idempotency typed again shape
      fresh authorized loaded spent charged recorded =>
      cases payload.symm.trans again
      cases decision
      refine ⟨(lookupPair_put recorded _ _).trans (if_pos ⟨rfl, rfl⟩), rfl, shape⟩
  | _ => cases decision

theorem getPair_some {ν : Type} {bucket : Bucket Bytes ν} {first second : Bytes} {value : ν}
    (found : lookupPair bucket first second = some value) :
    getPair bucket first second = .ok (some value) := by
  obtain ⟨key, encoded, stored⟩ := lookupPair_eq_some_iff.mp found
  rw [getPair, encoded, ← stored]

def repeated (d : DecisionRecord) : Result :=
  { type := some .decide, outcome := decided d.allowed, duplicate := true, decision := some d }

def conflict : Result :=
  rejection .decide .idempotencyConflict "idempotency key reused with different request content"

theorem decide_replay {p : DecidePayload} {state : Nat × AppState} (typed : cmd.type = .decide)
    (payload : lib.decide cmd.payload = some p)
    (shape : validateDecisionInput p.policyID p.subject p.requestID p.cost = .ok ())
    (found : state.2.decision p.clientID p.requestID = some d) :
    apply lib ctx cmd state =
      .ok (if d.requestDigest = requestDigest lib p.policyID p.subject p.cost then repeated d
        else conflict, ctx.logIndex, state.2) := by
  -- A stored decision answers a valid request under its ids by the digest alone.
  have looked : state.2.getIdempotency p.clientID p.requestID = .ok (some d) := getPair_some found
  have decoded : unmarshalPayload lib.decide cmd.payload = .ok p := by
    rw [unmarshalPayload, payload]
  have ran : applyDecide lib ctx cmd state.2 =
      if d.requestDigest ≠ requestDigest lib p.policyID p.subject p.cost then
        .ok (conflict, state.2)
      else .ok (repeated d, state.2) := by
    rw [applyDecide, decoded]
    change validated _ _ _ _ = _
    rw [shape, validated, looked]
    rfl
  rw [apply, applyTx, typed]
  simp only [ran]
  by_cases same : d.requestDigest = requestDigest lib p.policyID p.subject p.cost
  · rw [if_pos same, if_neg (not_not.mpr same)]
    rfl
  · rw [if_neg same, if_pos same]
    rfl

theorem decide_quiet {p : DecidePayload} (effect : Effect lib ctx cmd app result after)
    (typed : cmd.type = .decide) (payload : lib.decide cmd.payload = some p)
    (found : app.decision p.clientID p.requestID = some d) : after = app := by
  rcases effect_decide effect typed payload with ⟨kept, _⟩ | ⟨_, _, _, _, _, _, _, _, fresh, _⟩
  · exact kept
  · cases fresh.symm.trans found

theorem decide_charges (effect : Effect lib ctx cmd app result after) (typed : cmd.type = .decide)
    (changed : after.tokenBuckets ≠ app.tokenBuckets) :
    result.duplicate = false ∧ ∃ d, result.decision = some d := by
  cases effect with
  | charged => exact ⟨rfl, _, rfl⟩
  | updatedPolicy p old name visited tokenBuckets other => cases typed.symm.trans other
  | _ => exact absurd rfl changed

end Records

section Runs

variable {lib : Stdlib} {clientID requestID : String} {d : DecisionRecord}

theorem finish_record (state : Nat × AppState) (commands : List (ApplyContext × Command))
    (kept : ∀ step ∈ history lib state commands, step.cmd.type = .prune →
      (step.before.2.decision clientID requestID).isSome →
      (step.after.2.decision clientID requestID).isSome)
    (found : state.2.decision clientID requestID = some d) :
    (finish lib state commands).2.decision clientID requestID = some d := by
  induction commands generalizing state with
  | nil => exact found
  | cons command rest ih =>
      rw [history] at kept
      rw [finish]
      split at kept
      · exact ih state kept found
      · rename_i result next ran
        apply ih next fun step member => kept step (by simp [member])
        apply effect_record (apply_effect ran).2 _ found
        intro pruned
        exact kept _ List.mem_cons_self pruned (Option.isSome_of_eq_some found)

/-- The two requests do not collide under the hash. -/
def DigestsApart (lib : Stdlib) (p q : DecidePayload) : Prop :=
  lib.sha256 (bytesOf (digestPreimage p.policyID p.subject p.cost)) =
      lib.sha256 (bytesOf (digestPreimage q.policyID q.subject q.cost)) →
    digestPreimage p.policyID p.subject p.cost = digestPreimage q.policyID q.subject q.cost

theorem requestDigest_injective {p q : DecidePayload} (apart : DigestsApart lib p q)
    (first : validateDecisionInput p.policyID p.subject p.requestID p.cost = .ok ())
    (second : validateDecisionInput q.policyID q.subject q.requestID q.cost = .ok ())
    (same : requestDigest lib p.policyID p.subject p.cost =
      requestDigest lib q.policyID q.subject q.cost) :
    p.policyID = q.policyID ∧ p.subject = q.subject ∧ p.cost = q.cost := by
  obtain ⟨policy, shape, low⟩ := validateDecisionInput_ok first
  obtain ⟨otherPolicy, otherShape, otherLow⟩ := validateDecisionInput_ok second
  apply digestPreimage_injective policy shape (by linarith) otherPolicy otherShape (by linarith)
  exact apart (encodeToString_injective _ _ same)

/-- Let a decide be applied to any store, and any commands after it, no prune of
which removes the record under its ids. If the decide changed a token bucket it
made a fresh decision; and if it returned a decision, then every later decide under
its ids leaves all buckets alone, returns that very record for the same request,
and is refused for another valid one unless the hash of the two is the same. -/
theorem charged_once (lib : Stdlib) (state next : Nat × AppState) (ctx : ApplyContext) (cmd : Command)
    (p : DecidePayload) (result : Result) (typed : cmd.type = .decide)
    (payload : lib.decide cmd.payload = some p)
    (ran : apply lib ctx cmd state = .ok (result, next)) (between : List (ApplyContext × Command))
    (kept : ∀ step ∈ history lib next between, step.cmd.type = .prune →
      (step.before.2.decision p.clientID p.requestID).isSome →
      (step.after.2.decision p.clientID p.requestID).isSome) :
    (next.2.tokenBuckets ≠ state.2.tokenBuckets →
        result.duplicate = false ∧ ∃ d, result.decision = some d) ∧
      ∀ d, result.decision = some d → ∀ ctx cmd q, cmd.type = .decide →
        lib.decide cmd.payload = some q → q.clientID = p.clientID → q.requestID = p.requestID →
        (q.policyID = p.policyID ∧ q.subject = p.subject ∧ q.cost = p.cost →
            apply lib ctx cmd (finish lib next between) =
              .ok (repeated d, ctx.logIndex, (finish lib next between).2)) ∧
          (¬(q.policyID = p.policyID ∧ q.subject = p.subject ∧ q.cost = p.cost) →
            DigestsApart lib q p →
            validateDecisionInput q.policyID q.subject q.requestID q.cost = .ok () →
            apply lib ctx cmd (finish lib next between) =
              .ok (conflict, ctx.logIndex, (finish lib next between).2)) ∧
          ∀ result after, apply lib ctx cmd (finish lib next between) = .ok (result, after) →
            after.2 = (finish lib next between).2 := by
  have effect := (apply_effect ran).2
  refine ⟨decide_charges effect typed, ?_⟩
  intro d decision ctx cmd q again request sameClient sameRequest
  obtain ⟨stored, digest, shape⟩ := decide_stored effect payload decision
  have found := finish_record next between kept stored
  rw [← sameClient, ← sameRequest] at found
  refine ⟨?_, ?_, ?_⟩
  · rintro ⟨policyID, subject, cost⟩
    have valid : validateDecisionInput q.policyID q.subject q.requestID q.cost = .ok () := by
      rw [policyID, subject, sameRequest, cost]
      exact shape
    rw [decide_replay again request valid found, if_pos]
    rw [digest, policyID, subject, cost]
  · intro differs apart valid
    rw [decide_replay again request valid found, if_neg]
    intro same
    rw [digest] at same
    exact differs (requestDigest_injective apart valid shape same.symm)
  · intro result after later
    exact decide_quiet (apply_effect later).2 again request found

end Runs

def sampleStore : Nat × AppState :=
  finish sampleLib (0, AppState.migrated) (sampleCommands 1 [[0, 0, 5, 2], [3, 0]])

def sampleDecide (request cost : UInt8) : Command := ⟨1, "", .decide, 1000, [request, cost]⟩

def sampleRequest (cost : Int64) : DecidePayload :=
  ⟨"client-a", "orders", "alice", cost, "request-000000001", "client"⟩

def sampleCharged : Result × Nat × AppState :=
  match apply sampleLib ⟨3, 1⟩ (sampleDecide 1 3) sampleStore with
  | .ok charged => charged
  | .error _ => ({ outcome := .rejected }, sampleStore)

/-- Another request, a deactivation, a revocation and a prune before expiry. -/
def sampleBetween : List (ApplyContext × Command) :=
  sampleCommands 4 [[5, 2, 2, 1], [2, 3, 0, 1], [4, 4], [6, 5, 1]]

theorem charged_once_sample :
    sampleCharged.2.2.tokenBuckets ≠ sampleStore.2.tokenBuckets ∧
      ∃ d, sampleCharged.1.decision = some d ∧ d.allowed = true ∧
        apply sampleLib ⟨8, 2⟩ (sampleDecide 1 3) (finish sampleLib sampleCharged.2 sampleBetween) =
          .ok (repeated d, 8, (finish sampleLib sampleCharged.2 sampleBetween).2) ∧
        apply sampleLib ⟨9, 2⟩ (sampleDecide 1 4) (finish sampleLib sampleCharged.2 sampleBetween) =
          .ok (conflict, 9, (finish sampleLib sampleCharged.2 sampleBetween).2) := by
  have made : sampleCharged.1.decision.any (·.allowed) = true := by decide +kernel
  obtain ⟨d, found, allowed⟩ := (Option.any_eq_true _ _).mp made
  obtain ⟨_, later⟩ := charged_once sampleLib sampleStore sampleCharged.2 ⟨3, 1⟩
    (sampleDecide 1 3) (sampleRequest 3) sampleCharged.1 rfl (by decide +kernel)
    (by decide +kernel) sampleBetween (by decide +kernel)
  obtain ⟨same, _⟩ := later d found ⟨8, 2⟩ (sampleDecide 1 3) (sampleRequest 3) rfl
    (by decide +kernel) rfl rfl
  obtain ⟨_, other, _⟩ := later d found ⟨9, 2⟩ (sampleDecide 1 4) (sampleRequest 4) rfl
    (by decide +kernel) rfl rfl
  exact ⟨by decide +kernel, d, found, allowed, same ⟨rfl, rfl, rfl⟩,
    other (by decide) (bytesOf_injective _ _) (by decide +kernel)⟩

end QuorumLimiter.Limiter
