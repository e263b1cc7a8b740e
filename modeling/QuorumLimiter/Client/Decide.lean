import QuorumLimiter.Lib.Fixed64
import QuorumLimiter.Lib.JsonText
import QuorumLimiter.Lib.Retry
import QuorumLimiter.Lib.Trimming
import QuorumLimiter.Storage.Encoding

/-!
The Go client of the decision API. `Decide` tries again after a network error, a
503 or a 504, and only under an idempotency key. The number of attempts is one
more than `maxRetries`, a machine integer nobody checks: where the sum is not
positive no attempt is made, and there is neither a response nor an error.
-/

namespace QuorumLimiter.PublicClient

open JsonText Retry Trimming

section Requests

structure Client where
  baseURL : String
  apiKey : String
  maxRetries : Int64
  deriving DecidableEq, Repr

def withMaxRetries (n : Int64) : Client → Client := fun c => { c with maxRetries := n }

def new (baseURL apiKey : String) (opts : List (Client → Client)) : Client :=
  opts.foldl (fun c o => o c) ⟨trimRight '/' baseURL, apiKey, 2⟩

structure DecideRequest where
  policyID : String
  subject : String
  cost : Int64
  deriving DecidableEq, Repr

def DecideRequest.json (req : DecideRequest) : List Char :=
  object [field "policy_id" (string req.policyID), field "subject" (string req.subject),
    field "cost" (integer req.cost.toInt)]

structure HTTPRequest where
  method : String
  url : String
  contentType : String
  authorization : String
  idempotencyKey : Option String
  body : Bytes
  deriving DecidableEq, Repr

def Client.httpRequest (c : Client) (body : Bytes) (idempotencyKey : String) : HTTPRequest where
  method := "POST"
  url := c.baseURL ++ "/v1/decisions"
  contentType := "application/json"
  authorization := "Bearer " ++ c.apiKey
  idempotencyKey := if idempotencyKey ≠ "" then some idempotencyKey else none
  body := body

end Requests

section Answers

structure DecideResponse where
  statusCode : Int
  requestID : String
  policyID : String
  allowed : Bool
  cost : Int64
  remainingMilli : Int64
  retryAfterMS : Int64
  observedAt : String
  leaderTerm : UInt64
  logIndex : UInt64
  duplicate : Bool
  deriving DecidableEq, Repr

structure APIError where
  statusCode : Int
  code : String
  message : String
  requestID : String
  deriving DecidableEq, Repr

inductive DecideError
  | network (text : String)
  | decode (text : String)
  | api (error : APIError)
  deriving DecidableEq, Repr

/-- `json.Unmarshal` of the two bodies the client reads. The error of the second one
is dropped, and what was filled in before it stays. -/
structure Decoder where
  decision : Bytes → Except String DecideResponse
  apiError : Bytes → APIError

/-- What comes of one call of `do`. -/
inductive Attempt
  | failed (text : String)
  | responded (statusCode : Int) (data : Bytes)
  deriving DecidableEq, Repr

/-- The two results of `Decide`, where `none` is nil. -/
abbrev Answer := Option DecideResponse × Option DecideError

variable (json : Decoder)

def apiErrorFromBody (status : Int) (data : Bytes) : DecideError :=
  .api { json.apiError data with statusCode := status }

def parse (status : Int) (data : Bytes) : Answer :=
  if status = 200 ∨ status = 429 then
    match json.decision data with
    | .error text => (none, some (.decode ("quorumlimiter: decode response: " ++ text)))
    | .ok out => (some { out with statusCode := status }, none)
  else (none, some (apiErrorFromBody json status data))

def Attempt.answer : Attempt → Answer
  | .failed text => (none, some (.network text))
  | .responded status data => parse json status data

def Attempt.retryable : Attempt → Bool
  | .failed _ => true
  | .responded status _ => status = 503 ∨ status = 504

theorem answer_one (attempt : Attempt) :
    (attempt.answer json).1.isSome = !(attempt.answer json).2.isSome := by
  cases attempt with
  | failed text => rfl
  | responded status data =>
      rw [Attempt.answer, parse]
      split
      · cases json.decision data <;> rfl
      · rfl

end Answers

section Loop

def idempotencyKey2Retryable (idempotencyKey : String) : Bool := idempotencyKey ≠ ""

structure Decided where
  sent : List HTTPRequest
  answer : Answer
  deriving DecidableEq

variable (json : Decoder) (httpReq : HTTPRequest) (idempotencyKey : String)
  (outcomes : Nat → Attempt) (attempts : Int64)

def Decided.after (httpReq : HTTPRequest) (rest : Decided) : Decided :=
  ⟨httpReq :: rest.sent, rest.answer⟩

/-- The loop of `Decide`, where `i < attempts` will hold `left` more times. -/
def attemptLoop : Nat → Nat → Option DecideError → Decided
  | 0, _, lastErr => ⟨[], none, lastErr⟩
  | left + 1, i, _ =>
      Decided.after httpReq <|
        match outcomes i with
        | .failed text =>
            if !idempotencyKey2Retryable idempotencyKey then ⟨[], none, some (.network text)⟩
            else attemptLoop left (i + 1) (some (.network text))
        | .responded status data =>
            if (status = 503 ∨ status = 504) ∧ idempotencyKey ≠ "" ∧
                Int64.ofNat i < attempts - 1 then
              attemptLoop left (i + 1) (some (apiErrorFromBody json status data))
            else ⟨[], parse json status data⟩

def Client.decide (c : Client) (req : DecideRequest) : Decided :=
  let attempts := if idempotencyKey ≠ "" then 1 + c.maxRetries else 1
  attemptLoop json (c.httpRequest (bytesOf (String.ofList req.json)) idempotencyKey)
    idempotencyKey outcomes attempts attempts.toNatClampNeg 0 none

def again (attempt : Attempt) : Bool :=
  attempt.retryable && idempotencyKey2Retryable idempotencyKey

variable {attempts}

theorem lastRound_iff {left i : Nat} (reach : attempts.toInt = i + (left + 1)) :
    Int64.ofNat i < attempts - 1 ↔ 0 < left := by
  have high := attempts.toInt_lt
  have position : (Int64.ofNat i).toInt = i := Int64.toInt_ofNat_of_lt (by omega)
  have one : (1 : Int64).toInt = 1 := rfl
  have before : (attempts - 1).toInt = attempts.toInt - 1 := by
    rw [Fixed64.toInt_sub_fits (by omega) (by omega), one]
  rw [Int64.lt_iff_toInt_lt, position, before]
  omega

theorem attemptLoop_stop {left i : Nat} (lastErr : Option DecideError)
    (reach : attempts.toInt = i + (left + 1))
    (stop : again idempotencyKey (outcomes i) = false ∨ left = 0) :
    attemptLoop json httpReq idempotencyKey outcomes attempts (left + 1) i lastErr =
      ⟨[httpReq], (outcomes i).answer json⟩ := by
  have last := lastRound_iff reach
  rw [attemptLoop]
  cases outcome : outcomes i with
  | failed text =>
      dsimp only
      split
      · rfl
      · rename_i keyed
        rcases stop with stop | rfl
        · simp [again, outcome, Attempt.retryable] at stop
          simp [stop] at keyed
        · rfl
  | responded status data =>
      dsimp only
      rw [if_neg]
      · rfl
      · rintro ⟨unavailable, keyed, more⟩
        rcases stop with stop | rfl
        · simp [again, outcome, Attempt.retryable, idempotencyKey2Retryable, unavailable,
            keyed] at stop
        · exact absurd (last.mp more) (Nat.lt_irrefl 0)

theorem attemptLoop_again {left i : Nat} (lastErr : Option DecideError)
    (reach : attempts.toInt = i + (left + 1 + 1))
    (more : again idempotencyKey (outcomes i) = true) :
    ∃ err, attemptLoop json httpReq idempotencyKey outcomes attempts (left + 1 + 1) i lastErr =
      (attemptLoop json httpReq idempotencyKey outcomes attempts (left + 1) (i + 1) err).after
        httpReq := by
  have last : Int64.ofNat i < attempts - 1 ↔ 0 < left + 1 := lastRound_iff (by omega)
  rw [again, Bool.and_eq_true] at more
  obtain ⟨retryable, keyed⟩ := more
  rw [attemptLoop]
  cases outcome : outcomes i with
  | failed text =>
      dsimp only
      rw [if_neg (by simp [keyed])]
      exact ⟨_, rfl⟩
  | responded status data =>
      rw [outcome] at retryable
      dsimp only
      rw [if_pos]
      · exact ⟨_, rfl⟩
      · exact ⟨of_decide_eq_true retryable, of_decide_eq_true keyed, last.mpr (by omega)⟩

theorem attemptLoop_eq (left i : Nat) (lastErr : Option DecideError)
    (reach : attempts.toInt = i + (left + 1)) :
    attemptLoop json httpReq idempotencyKey outcomes attempts (left + 1) i lastErr =
      ⟨List.replicate (performed (again idempotencyKey) outcomes (left + 1) i) httpReq,
        (outcomes (i + performed (again idempotencyKey) outcomes (left + 1) i - 1)).answer
          json⟩ := by
  induction left generalizing i lastErr with
  | zero =>
      have once : performed (again idempotencyKey) outcomes 1 i = 1 :=
        Nat.le_antisymm (performed_le _ _ 1 i) (performed_pos _ _ 0 i)
      rw [attemptLoop_stop _ _ _ _ lastErr reach (Or.inr rfl), Nat.zero_add, once]
      rfl
  | succ left ih =>
      rw [performed]
      cases more : again idempotencyKey (outcomes i) with
      | false =>
          rw [attemptLoop_stop _ _ _ _ lastErr reach (Or.inl more)]
          rfl
      | true =>
          obtain ⟨err, next⟩ := attemptLoop_again json httpReq _ _ lastErr reach more
          have place : i + (performed (again idempotencyKey) outcomes (left + 1) (i + 1) + 1) - 1 =
              i + 1 + performed (again idempotencyKey) outcomes (left + 1) (i + 1) - 1 := by omega
          rw [next, ih (i + 1) err (by omega), Decided.after, if_pos rfl, List.replicate_succ,
            place]

end Loop

section Calls

variable (c : Client) (json : Decoder) (req : DecideRequest) (idempotencyKey : String)
  (outcomes : Nat → Attempt)

/-- How a call with the given outcomes should go. -/
structure Sound (maxRetries : Int64) (decided : Decided) : Prop where
  unkeyed : idempotencyKey = "" → decided.sent.length = 1
  keyed : idempotencyKey ≠ "" →
    1 ≤ decided.sent.length ∧ (decided.sent.length : Int) ≤ 1 + maxRetries.toInt
  further : ∀ k, k + 1 < decided.sent.length → (outcomes k).retryable = true
  stops : ∀ k < decided.sent.length, (outcomes k).retryable = false → decided.sent.length = k + 1
  one : decided.answer.1.isSome = !decided.answer.2.isSome
  last : decided.answer = (outcomes (decided.sent.length - 1)).answer json

/-- The retries leave a positive number of attempts that is not too large to add up. -/
def Attemptable (maxRetries : Int64) : Prop := 0 ≤ maxRetries ∧ maxRetries ≠ Int64.maxValue

theorem attempts_exact {maxRetries : Int64} (attemptable : Attemptable maxRetries) :
    (1 + maxRetries).toInt = 1 + maxRetries.toInt := by
  obtain ⟨positive, below⟩ := attemptable
  have high := maxRetries.toInt_lt
  have low : 0 ≤ maxRetries.toInt := Int64.le_iff_toInt_le.mp positive
  have largest : maxRetries.toInt ≠ 2 ^ 63 - 1 := fun same => below (Int64.toInt_inj.mp same)
  have one : (1 : Int64).toInt = 1 := rfl
  rw [Fixed64.toInt_add_fits (by omega) (by omega), one]

theorem attempts_none {maxRetries : Int64} (unfit : ¬ Attemptable maxRetries) :
    (1 + maxRetries).toNatClampNeg = 0 := by
  rw [Int64.toNatClampNeg, Int.toNat_eq_zero]
  by_cases positive : 0 ≤ maxRetries
  · have largest : maxRetries = Int64.maxValue := by
      by_contra below
      exact unfit ⟨positive, below⟩
    rw [largest]
    decide
  · have negative : maxRetries.toInt < 0 := by
      rw [Int64.le_iff_toInt_le] at positive
      exact Int.not_le.mp positive
    have low := maxRetries.le_toInt
    have one : (1 : Int64).toInt = 1 := rfl
    rw [Fixed64.toInt_add_fits (by omega) (by omega), one]
    omega

theorem sound_loop {attempts maxRetries : Int64} (httpReq : HTTPRequest) (left : Nat)
    (reach : attempts.toInt = left + 1)
    (single : idempotencyKey = "" → left = 0)
    (bound : idempotencyKey ≠ "" → (left : Int) = maxRetries.toInt) :
    Sound json idempotencyKey outcomes maxRetries
      (attemptLoop json httpReq idempotencyKey outcomes attempts (left + 1) 0 none) := by
  have least := performed_pos (again idempotencyKey) outcomes left 0
  have most := performed_le (again idempotencyKey) outcomes (left + 1) 0
  have retried : ∀ k, k + 1 < performed (again idempotencyKey) outcomes (left + 1) 0 →
      (outcomes k).retryable = true := by
    intro k further
    have more := again_of_further _ _ _ _ _ further
    rw [Nat.zero_add, again, Bool.and_eq_true] at more
    exact more.1
  rw [attemptLoop_eq json httpReq _ _ left 0 none (by omega), Nat.zero_add]
  constructor
  · intro empty
    have := single empty
    simp only [List.length_replicate]
    omega
  · intro given
    have := bound given
    simp only [List.length_replicate]
    omega
  · simpa only [List.length_replicate] using retried
  · simp only [List.length_replicate]
    intro k below refused
    by_contra other
    rw [retried k (by omega)] at refused
    contradiction
  · exact answer_one json _
  · simp only [List.length_replicate]

/-- A call goes as it should exactly when there is no key, or `maxRetries` is not
negative and not the largest integer. -/
theorem decide_sound_iff :
    Sound json idempotencyKey outcomes c.maxRetries
        (c.decide json idempotencyKey outcomes req) ↔
      idempotencyKey = "" ∨ 0 ≤ c.maxRetries ∧ c.maxRetries ≠ Int64.maxValue := by
  constructor
  · intro sound
    by_contra unfit
    obtain ⟨keyed, unfit⟩ := not_or.mp unfit
    have made := (sound.keyed keyed).1
    rw [Client.decide] at made
    simp only [ne_eq, keyed, not_false_eq_true, if_true, attempts_none unfit] at made
    contradiction
  · rintro (rfl | attemptable)
    · exact sound_loop json "" outcomes _ 0 rfl (fun _ => rfl) fun keyed => absurd rfl keyed
    · by_cases empty : idempotencyKey = ""
      · subst empty
        exact sound_loop json "" outcomes _ 0 rfl (fun _ => rfl) fun keyed => absurd rfl keyed
      · have sum := attempts_exact attemptable
        have low : 0 ≤ c.maxRetries.toInt := Int64.le_iff_toInt_le.mp attemptable.1
        have rounds : (1 + c.maxRetries).toNatClampNeg = c.maxRetries.toInt.toNat + 1 := by
          rw [Int64.toNatClampNeg, sum]
          omega
        rw [Client.decide]
        simp only [ne_eq, empty, not_false_eq_true, if_true, rounds]
        exact sound_loop json idempotencyKey outcomes _ _ (by omega)
          (fun given => absurd given empty) fun _ => by omega

end Calls

def allowing : Decoder where
  decision _ := .ok ⟨0, "", "pol", true, 1, 4000, 0, "", 1, 9, false⟩
  apiError _ := ⟨0, "", "", ""⟩

def keyedCall (maxRetries : Int64) : Decided :=
  (new "http://127.0.0.1:18081" "k" [withMaxRetries maxRetries]).decide allowing
    "idem-000000000001" (fun _ => .responded 200 []) ⟨"pol", "s", 1⟩

/-- With `maxRetries` negative or the largest integer nothing is sent, and both the
response and the error are nil. -/
theorem keyedCall_answers_nothing :
    keyedCall (-1) = ⟨[], none, none⟩ ∧ keyedCall Int64.maxValue = ⟨[], none, none⟩ ∧
      (keyedCall 0).sent.length = 1 ∧
      ¬ Sound allowing "idem-000000000001" (fun _ => .responded 200 []) (-1) (keyedCall (-1)) := by
  have silent : keyedCall (-1) = ⟨[], none, none⟩ := by decide
  refine ⟨silent, by decide, by decide, ?_⟩
  intro sound
  have made := (sound.keyed (by decide)).1
  rw [silent] at made
  contradiction

end QuorumLimiter.PublicClient
