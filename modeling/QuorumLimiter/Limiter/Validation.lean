import QuorumLimiter.Limiter.Models

/-!
Field bounds and shapes. A validator returns the text of its error, which becomes
the message of the rejection.
-/

namespace QuorumLimiter.Limiter

def minName : Nat := 3
def maxPolicyName : Nat := 64
def maxClientName : Nat := 80
def minCapacity : Int64 := 1
def maxCapacity : Int64 := 1000000
def minRefill : Int64 := 1
def maxRefill : Int64 := 1000000
def minInterval : Int64 := 1000
def maxInterval : Int64 := 86400000
def maxSubjectLen : Nat := 128
def minRequestIDLen : Nat := 16
def maxRequestIDLen : Nat := 128
def maxAllowedPolicies : Nat := 100

/-- The pattern of `policyIDRe`: a lower-case letter, then 2 to 47 of `a-z 0-9 _`. -/
def matchesPolicyID (id : String) : Bool :=
  match id.toList with
  | [] => false
  | first :: rest =>
      first.isLower && decide (2 ≤ rest.length) && decide (rest.length ≤ 47) &&
        rest.all fun c => c.isLower || c.isDigit || c == '_'

/-- One or more of `A-Z a-z 0-9 . _ : @ / -`, the pattern of `subjectRe`. -/
def matchesSubject (subject : String) : Bool :=
  !subject.toList.isEmpty &&
    subject.toList.all fun c => c.isAlphanum || c ∈ ['.', '_', ':', '@', '/', '-']

/-- One or more of `A-Z a-z 0-9 . _ ~ -`, the pattern of `requestIDRe`. -/
def matchesRequestID (id : String) : Bool :=
  !id.toList.isEmpty && id.toList.all fun c => c.isAlphanum || c ∈ ['.', '_', '~', '-']

def validatePolicyID (id : String) : Except String Unit :=
  if matchesPolicyID id then .ok ()
  else .error "policy id must match ^[a-z][a-z0-9_]\x7b2,47\x7d$"

/-- The code points `unicode.IsSpace` accepts. -/
def isSpace (c : Char) : Bool :=
  let n := c.toNat
  decide (9 ≤ n ∧ n ≤ 13) || decide (0x2000 ≤ n ∧ n ≤ 0x200a) ||
    n ∈ [0x20, 0x85, 0xa0, 0x1680, 0x2028, 0x2029, 0x202f, 0x205f, 0x3000]

def trimSpace (text : String) : String :=
  String.ofList ((text.toList.dropWhile isSpace).reverse.dropWhile isSpace).reverse

def validateName (name : String) (max : Nat) : Except String String :=
  if (trimSpace name).length < minName ∨ (trimSpace name).length > max then
    .error s!"name must be {minName} to {max} characters"
  else .ok (trimSpace name)

def validatePolicyFields (capacity refill interval maxCost : Int64) : Except String Unit :=
  if capacity < minCapacity ∨ capacity > maxCapacity then
    .error s!"capacity_tokens must be {minCapacity} to {maxCapacity}"
  else if refill < minRefill ∨ refill > maxRefill then
    .error s!"refill_tokens must be {minRefill} to {maxRefill}"
  else if interval < minInterval ∨ interval > maxInterval then
    .error s!"refill_interval_ms must be {minInterval} to {maxInterval}"
  else if maxCost < 1 ∨ maxCost > capacity then
    .error s!"max_cost_tokens must be 1 to capacity ({capacity})"
  else .ok ()

def validateSubject (subject : String) : Except String Unit :=
  if subject.utf8ByteSize < 1 ∨ subject.utf8ByteSize > maxSubjectLen then
    .error s!"subject must be 1 to {maxSubjectLen} characters"
  else if matchesSubject subject then .ok ()
  else .error "subject contains invalid characters"

def validateRequestID (id : String) : Except String Unit :=
  if id.utf8ByteSize < minRequestIDLen ∨ id.utf8ByteSize > maxRequestIDLen then
    .error s!"request id must be {minRequestIDLen} to {maxRequestIDLen} characters"
  else if matchesRequestID id then .ok ()
  else .error "request id contains invalid characters"

def validateDecisionInput (policyID subject requestID : String) (cost : Int64) :
    Except String Unit := do
  validatePolicyID policyID
  validateSubject subject
  validateRequestID requestID
  if cost < 1 then .error "cost must be at least 1" else .ok ()

/-- The loop of `validateAllowedPolicies` over the ids after those in `seen`. -/
def validateEach (quote : String → String) (seen : List String) : List String → Except String Unit
  | [] => .ok ()
  | id :: rest =>
      if id = "*" then .error "\"*\" cannot be combined with specific policy ids"
      else
        match validatePolicyID id with
        | .error error => .error ("allowed policy " ++ quote id ++ " invalid: " ++ error)
        | .ok _ =>
            if id ∈ seen then .error ("allowed_policy_ids has duplicate " ++ quote id)
            else validateEach quote (id :: seen) rest

def validateAllowedPolicies (quote : String → String) (ids : List String) : Except String Unit :=
  if ids.isEmpty then .error "allowed_policy_ids must not be empty"
  else if ids = ["*"] then .ok ()
  else if ids.length > maxAllowedPolicies then
    .error s!"allowed_policy_ids must be at most {maxAllowedPolicies}"
  else validateEach quote [] ids

section Shapes

structure PolicyBounds (capacity refill interval maxCost : Int64) : Prop where
  capacityLow : 1 ≤ capacity.toInt
  capacityHigh : capacity.toInt ≤ 1000000
  refillLow : 1 ≤ refill.toInt
  refillHigh : refill.toInt ≤ 1000000
  intervalLow : 1000 ≤ interval.toInt
  intervalHigh : interval.toInt ≤ 86400000
  costLow : 1 ≤ maxCost.toInt
  costHigh : maxCost.toInt ≤ capacity.toInt

theorem not_outside {low value high : Int64} :
    ¬(value < low ∨ value > high) ↔ low.toInt ≤ value.toInt ∧ value.toInt ≤ high.toInt := by
  simp only [not_or, gt_iff_lt, Int64.not_lt, Int64.le_iff_toInt_le]

theorem validatePolicyFields_ok {capacity refill interval maxCost : Int64}
    (accepted : validatePolicyFields capacity refill interval maxCost = .ok ()) :
    PolicyBounds capacity refill interval maxCost := by
  unfold validatePolicyFields at accepted
  split at accepted
  · contradiction
  split at accepted
  · contradiction
  split at accepted
  · contradiction
  split at accepted
  · contradiction
  rename_i capacityBounds refillBounds intervalBounds costBounds
  obtain ⟨capacityLow, capacityHigh⟩ := not_outside.mp capacityBounds
  obtain ⟨refillLow, refillHigh⟩ := not_outside.mp refillBounds
  obtain ⟨intervalLow, intervalHigh⟩ := not_outside.mp intervalBounds
  obtain ⟨costLow, costHigh⟩ := not_outside.mp costBounds
  exact ⟨capacityLow, capacityHigh, refillLow, refillHigh, intervalLow, intervalHigh, costLow,
    costHigh⟩

theorem validatePolicyFields_of_bounds {capacity refill interval maxCost : Int64}
    (bounds : PolicyBounds capacity refill interval maxCost) :
    validatePolicyFields capacity refill interval maxCost = .ok () := by
  have capacityInside : ¬(capacity < minCapacity ∨ capacity > maxCapacity) :=
    not_outside.mpr ⟨bounds.capacityLow, bounds.capacityHigh⟩
  have refillInside : ¬(refill < minRefill ∨ refill > maxRefill) :=
    not_outside.mpr ⟨bounds.refillLow, bounds.refillHigh⟩
  have intervalInside : ¬(interval < minInterval ∨ interval > maxInterval) :=
    not_outside.mpr ⟨bounds.intervalLow, bounds.intervalHigh⟩
  have costInside : ¬(maxCost < 1 ∨ maxCost > capacity) :=
    not_outside.mpr ⟨bounds.costLow, bounds.costHigh⟩
  rw [validatePolicyFields, if_neg capacityInside, if_neg refillInside, if_neg intervalInside,
    if_neg costInside]

theorem validatePolicyID_ok {id : String} (accepted : validatePolicyID id = .ok ()) :
    matchesPolicyID id = true := by
  unfold validatePolicyID at accepted
  split at accepted
  · assumption
  · contradiction

theorem validateSubject_ok {subject : String} (accepted : validateSubject subject = .ok ()) :
    matchesSubject subject = true := by
  unfold validateSubject at accepted
  split at accepted
  · contradiction
  split at accepted
  · assumption
  · contradiction

theorem validateDecisionInput_ok {policyID subject requestID : String} {cost : Int64}
    (accepted : validateDecisionInput policyID subject requestID cost = .ok ()) :
    matchesPolicyID policyID = true ∧ matchesSubject subject = true ∧ 1 ≤ cost.toInt := by
  obtain ⟨_, policy, accepted⟩ := bind_ok accepted
  obtain ⟨_, shape, accepted⟩ := bind_ok accepted
  obtain ⟨_, _, accepted⟩ := bind_ok accepted
  refine ⟨validatePolicyID_ok policy, validateSubject_ok shape, ?_⟩
  split at accepted
  · contradiction
  · rename_i positive
    rw [Int64.not_lt, Int64.le_iff_toInt_le] at positive
    exact positive

end Shapes

end QuorumLimiter.Limiter
