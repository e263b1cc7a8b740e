import QuorumLimiter.Limiter.CommandJson

/-!
The admin handler that creates a policy, up to the command it proposes: the body
is read through a limit, and nothing in it is validated before the command is in
the log.
-/

namespace QuorumLimiter.Limiter

open JsonText

def maxDecisionBody : Nat := 65536

/-- One strict JSON value, as `dec.Decode` and `dec.More` leave it. -/
def decodeAdminBody {α : Type} (read : Bytes → Read α) (body : Bytes) : Except ReadError α :=
  readLimited maxDecisionBody read body

/-- The request has the fields and the tags of the payload. -/
abbrev CreatePolicyRequest := CreatePolicyPayload

def createPolicyCommand (read : Bytes → Read CreatePolicyRequest) (commandID : String)
    (now : Int64) (body : Bytes) : Except ReadError Bytes := do
  let req ← decodeAdminBody read body
  return encodeCommand commandID .createPolicy now (CreatePolicyPayload.json req)

end QuorumLimiter.Limiter
