import QuorumLimiter.Lib.Bucket
import QuorumLimiter.Limiter.Models

/-!
The application buckets and the surface the state machine reads and writes them
through. Token buckets and decision records are stored under composite keys; a
write fails only on its key.
-/

namespace QuorumLimiter

section Keyed

variable {ν : Type}

/-- The longest key a store page takes. -/
def maxKeySize : Nat := 32768

def putKey (bucket : Bucket Bytes ν) (key : Bytes) (value : ν) :
    Except StoreError (Bucket Bytes ν) :=
  if key.length = 0 then .error .keyRequired
  else if key.length > maxKeySize then .error .keyTooLarge
  else .ok (bucket.put key value)

def getPair (bucket : Bucket Bytes ν) (first second : Bytes) : Except StoreError (Option ν) :=
  match compositeKey [first, second] with
  | .error error => .error error
  | .ok key => .ok (bucket.get key)

def putPair (bucket : Bucket Bytes ν) (first second : Bytes) (value : ν) :
    Except StoreError (Bucket Bytes ν) :=
  match compositeKey [first, second] with
  | .error error => .error error
  | .ok key => putKey bucket key value

/-- The body of the walk over the pairs a cursor visits: the second key parts and
values of those whose first part is `owner`. -/
def visitOwned (owner : Bytes) : List (Bytes × ν) → Except StoreError (List (Bytes × ν))
  | [] => .ok []
  | (key, value) :: rest =>
      match splitCompositeKey key with
      | .error error => .error error
      | .ok [first, second] =>
          if first ≠ owner then visitOwned owner rest
          else
            match visitOwned owner rest with
            | .error error => .error error
            | .ok visited => .ok ((second, value) :: visited)
      | .ok _ => visitOwned owner rest

/-- The walk of `ForEachTokenBucketByPolicy`: from the key that encodes the owner
alone, for as long as keys begin with it. -/
def forEachOwned (bucket : Bucket Bytes ν) (owner : Bytes) :
    Except StoreError (List (Bytes × ν)) :=
  match compositeKey [owner] with
  | .error error => .error error
  | .ok start =>
      visitOwned owner ((bucket.seek start).takeWhile fun pair => decide (start <+: pair.1))

def lookupPair (bucket : Bucket Bytes ν) (first second : Bytes) : Option ν :=
  match getPair bucket first second with
  | .error _ => none
  | .ok found => found

theorem putKey_ok {bucket after : Bucket Bytes ν} {key : Bytes} {value : ν}
    (written : putKey bucket key value = .ok after) :
    after = bucket.put key value ∧ key ≠ [] ∧ key.length ≤ maxKeySize := by
  unfold putKey at written
  split at written
  · contradiction
  split at written
  · contradiction
  rename_i nonempty bound
  cases written
  exact ⟨rfl, fun empty => nonempty (by rw [empty]; rfl), Nat.le_of_not_lt bound⟩

theorem putPair_ok {bucket after : Bucket Bytes ν} {first second : Bytes} {value : ν}
    (written : putPair bucket first second value = .ok after) :
    ∃ key, compositeKey [first, second] = .ok key ∧ after = bucket.put key value := by
  unfold putPair at written
  split at written
  · contradiction
  · rename_i key encoded
    exact ⟨key, encoded, (putKey_ok written).1⟩

theorem getPair_ok {bucket : Bucket Bytes ν} {first second : Bytes} {found : Option ν}
    (looked : getPair bucket first second = .ok found) :
    lookupPair bucket first second = found := by
  rw [lookupPair, looked]

@[simp] theorem lookupPair_empty (first second : Bytes) :
    lookupPair (Bucket.empty : Bucket Bytes ν) first second = none := by
  unfold lookupPair getPair
  cases compositeKey [first, second] <;> rfl

theorem lookupPair_eq_some_iff {bucket : Bucket Bytes ν} {first second : Bytes} {value : ν} :
    lookupPair bucket first second = some value ↔
      ∃ key, compositeKey [first, second] = .ok key ∧ bucket.get key = some value := by
  unfold lookupPair getPair
  split
  · rename_i failed
    split at failed
    · rename_i long
      simp [long]
    · contradiction
  · rename_i found
    split at found
    · contradiction
    · rename_i key encoded
      cases found
      simp [encoded]

theorem lookupPair_put {bucket after : Bucket Bytes ν} {first second : Bytes} {value : ν}
    (written : putPair bucket first second value = .ok after) (left right : Bytes) :
    lookupPair after left right =
      if left = first ∧ right = second then some value else lookupPair bucket left right := by
  obtain ⟨key, encoded, rfl⟩ := putPair_ok written
  unfold lookupPair getPair
  by_cases same : left = first ∧ right = second
  · obtain ⟨rfl, rfl⟩ := same
    simp [encoded]
  · rw [if_neg same]
    cases other : compositeKey [left, right] with
    | error error => rfl
    | ok found =>
        simp only
        rw [Bucket.get_put, if_neg]
        rintro rfl
        have parts := compositeKey_injective _ _ _ other encoded
        simp only [List.cons.injEq, and_true] at parts
        exact same parts

theorem lookupPair_stored {bucket after : Bucket Bytes ν} {first second : String} {value : ν}
    (written : putPair bucket (bytesOf first) (bytesOf second) value = .ok after)
    (left right : String) :
    lookupPair after (bytesOf left) (bytesOf right) =
      if left = first ∧ right = second then some value
      else lookupPair bucket (bytesOf left) (bytesOf right) := by
  rw [lookupPair_put written]
  refine if_congr ⟨?_, ?_⟩ rfl rfl
  · exact fun same => ⟨bytesOf_injective _ _ same.1, bytesOf_injective _ _ same.2⟩
  · rintro ⟨rfl, rfl⟩
    exact ⟨rfl, rfl⟩

def Paired (bucket : Bucket Bytes ν) : Prop :=
  ∀ key value, bucket.get key = some value → ∃ first second, compositeKey [first, second] = .ok key

section Walk

variable {owner : Bytes}

theorem encodePart_begins {first rest : Bytes} (short : owner.length ≤ maxKeyPartLen)
    (bound : first.length ≤ maxKeyPartLen) (begins : encodePart owner <+: encodePart first ++ rest) :
    first = owner := by
  obtain ⟨tail, same⟩ := begins
  simp only [encodePart, putUint16, List.cons_append, List.nil_append, List.cons.injEq] at same
  obtain ⟨high, low, parts⟩ := same
  have lengths := uint16_putUint16 _ short
  rw [high, low, uint16_putUint16 _ bound] at lengths
  exact (List.append_inj_left parts lengths.symm).symm

theorem visitOwned_eq (pairs : List (Bytes × ν))
    (owned : ∀ pair ∈ pairs, ∃ second, compositeKey [owner, second] = .ok pair.1) :
    ∃ visited, visitOwned owner pairs = .ok visited ∧
      (visited.map fun item => (compositeKey [owner, item.1], item.2)) =
        pairs.map fun pair => (.ok pair.1, pair.2) := by
  induction pairs with
  | nil => exact ⟨[], rfl, rfl⟩
  | cons pair rest ih =>
      obtain ⟨second, encoded⟩ := owned pair (by simp)
      obtain ⟨visited, walked, same⟩ := ih fun other member => owned other (by simp [member])
      refine ⟨(second, pair.2) :: visited, ?_, ?_⟩
      · simp only [visitOwned, split_compositeKey _ _ encoded, walked]
        rw [if_neg (not_not.mpr rfl)]
      · rw [List.map_cons, List.map_cons, encoded, same]

theorem forEachOwned_eq {bucket : Bucket Bytes ν} (paired : Paired bucket)
    (short : owner.length ≤ maxKeyPartLen) :
    ∃ visited, forEachOwned bucket owner = .ok visited ∧
      (visited.map fun item => (compositeKey [owner, item.1], item.2)) =
        (bucket.pairs.filter fun pair => decide (encodePart owner <+: pair.1)).map
          fun pair => (.ok pair.1, pair.2) := by
  -- The walk visits, in key order and once each, the pairs stored under `owner`.
  have start : compositeKey [owner] = .ok (encodePart owner) := by
    rw [compositeKey_eq_ok_iff]
    exact ⟨by simpa using short, by simp⟩
  rw [forEachOwned, start]
  simp only [Bucket.seek_takeWhile]
  apply visitOwned_eq
  intro pair member
  obtain ⟨stored, begins⟩ := List.mem_filter.mp member
  obtain ⟨first, second, encoded⟩ := paired pair.1 pair.2 ((Bucket.get_eq_some_iff _ _ _).mpr stored)
  obtain ⟨bounds, key⟩ := (compositeKey_eq_ok_iff _ _).mp encoded
  rw [key, List.flatMap_cons, decide_eq_true_eq] at begins
  have same := encodePart_begins short (bounds first (by simp)) begins
  exact ⟨second, same ▸ encoded⟩

theorem mem_forEachOwned {bucket : Bucket Bytes ν} {visited : List (Bytes × ν)}
    (paired : Paired bucket) (walked : forEachOwned bucket owner = .ok visited) (second : Bytes)
    (value : ν) : (second, value) ∈ visited ↔ lookupPair bucket owner second = some value := by
  have short : owner.length ≤ maxKeyPartLen := by
    unfold forEachOwned at walked
    split at walked
    · contradiction
    · rename_i start encoded
      exact ((compositeKey_eq_ok_iff _ _).mp encoded).1 owner (by simp)
  obtain ⟨found, again, same⟩ := forEachOwned_eq paired short
  rw [walked] at again
  cases again
  rw [lookupPair_eq_some_iff]
  constructor
  · intro member
    have image := List.mem_map_of_mem (f := fun item => (compositeKey [owner, item.1], item.2)) member
    rw [same] at image
    obtain ⟨pair, inside, eq⟩ := List.mem_map.mp image
    obtain ⟨encoded, rfl⟩ := Prod.mk.inj eq
    exact ⟨pair.1, encoded.symm, (Bucket.get_eq_some_iff _ _ _).mpr (List.mem_filter.mp inside).1⟩
  · rintro ⟨key, encoded, stored⟩
    have begins : encodePart owner <+: key := by
      rw [((compositeKey_eq_ok_iff _ _).mp encoded).2, List.flatMap_cons]
      exact List.prefix_append _ _
    have image : (Except.ok key, value) ∈
        visited.map fun item => (compositeKey [owner, item.1], item.2) := by
      rw [same]
      refine List.mem_map.mpr ⟨(key, value), List.mem_filter.mpr ⟨?_, by simpa using begins⟩, rfl⟩
      exact (Bucket.get_eq_some_iff _ _ _).mp stored
    obtain ⟨item, member, eq⟩ := List.mem_map.mp image
    obtain ⟨again, rfl⟩ := Prod.mk.inj eq
    have parts := compositeKey_injective _ _ _ again encoded
    simp only [List.cons.injEq, and_true, true_and] at parts
    exact parts ▸ member

theorem forEachOwned_ordered {bucket : Bucket Bytes ν} {visited : List (Bytes × ν)}
    (paired : Paired bucket) (short : owner.length ≤ maxKeyPartLen)
    (walked : forEachOwned bucket owner = .ok visited) :
    visited.Pairwise fun earlier later => ∃ low high,
      compositeKey [owner, earlier.1] = .ok low ∧ compositeKey [owner, later.1] = .ok high ∧
        low < high := by
  obtain ⟨found, again, same⟩ := forEachOwned_eq paired short
  rw [walked] at again
  cases again
  let follows : Except StoreError Bytes × ν → Except StoreError Bytes × ν → Prop :=
    fun earlier later => ∃ low high, earlier.1 = .ok low ∧ later.1 = .ok high ∧ low < high
  have mapped : (visited.map fun item => (compositeKey [owner, item.1], item.2)).Pairwise
      follows := by
    rw [same, List.pairwise_map]
    refine (bucket.ordered.filter _).imp ?_
    intro earlier later below
    exact ⟨earlier.1, later.1, rfl, rfl, below⟩
  exact List.pairwise_map.mp mapped

end Walk

section Puts

/-- Writes in order, each under two key parts, up to the first that fails. -/
def putPairs (bucket : Bucket Bytes ν) :
    List (Bytes × Bytes × ν) → Except StoreError (Bucket Bytes ν)
  | [] => .ok bucket
  | (first, second, value) :: rest =>
      match putPair bucket first second value with
      | .error error => .error error
      | .ok after => putPairs after rest

/-- The value of the last write under the two key parts. -/
def lastPut (puts : List (Bytes × Bytes × ν)) (first second : Bytes) : Option ν :=
  (puts.filterMap fun put =>
    if put.1 = first ∧ put.2.1 = second then some put.2.2 else none).getLast?

theorem lastPut_cons (left right : Bytes) (value : ν) (rest : List (Bytes × Bytes × ν))
    (first second : Bytes) :
    lastPut ((left, right, value) :: rest) first second =
      (lastPut rest first second).or
        (if left = first ∧ right = second then some value else none) := by
  rw [lastPut, lastPut, List.filterMap_cons]
  generalize List.filterMap _ rest = later
  by_cases same : left = first ∧ right = second
  · rw [if_pos same]
    simp only [List.getLast?_cons]
    cases later.getLast? <;> rfl
  · rw [if_neg same, Option.or_none]

theorem paired_put {bucket after : Bucket Bytes ν} {first second : Bytes} {value : ν}
    (paired : Paired bucket) (written : putPair bucket first second value = .ok after) :
    Paired after := by
  obtain ⟨key, encoded, rfl⟩ := putPair_ok written
  intro other found stored
  rw [Bucket.get_put] at stored
  by_cases same : other = key
  · rw [same]
    exact ⟨first, second, encoded⟩
  · rw [if_neg same] at stored
    exact paired other found stored

theorem putPairs_holds (puts : List (Bytes × Bytes × ν)) (bucket after : Bucket Bytes ν)
    (paired : Paired bucket) (written : putPairs bucket puts = .ok after) :
    Paired after ∧ ∀ first second, lookupPair after first second =
      (lastPut puts first second).or (lookupPair bucket first second) := by
  induction puts generalizing bucket with
  | nil =>
      cases written
      exact ⟨paired, fun _ _ => rfl⟩
  | cons put rest ih =>
      obtain ⟨left, right, value⟩ := put
      rw [putPairs] at written
      cases stored : putPair bucket left right value with
      | error error =>
          rw [stored] at written
          cases written
      | ok middle =>
          rw [stored] at written
          obtain ⟨kept, lookups⟩ := ih middle (paired_put paired stored) written
          refine ⟨kept, ?_⟩
          intro first second
          rw [lookups, lookupPair_put stored, lastPut_cons, Option.or_assoc]
          by_cases same : left = first ∧ right = second
          · rw [if_pos same, if_pos ⟨same.1.symm, same.2.symm⟩, Option.some_or]
          · rw [if_neg same, if_neg (fun other => same ⟨other.1.symm, other.2.symm⟩), Option.none_or]

/-- After any writes, the walk over one owner calls its function once for each
second key part stored under it, with the last value, in key order, and for
nothing else. An owner too long for a key has nothing stored. -/
theorem forEachOwned_visits_own (puts : List (Bytes × Bytes × ν)) (bucket : Bucket Bytes ν)
    (stored : putPairs Bucket.empty puts = .ok bucket) (owner : Bytes) :
    forEachOwned bucket owner ≠ .error .malformedKey ∧
      (owner.length ≤ 65535 → ∃ visited, forEachOwned bucket owner = .ok visited ∧
        (∀ subject value, (subject, value) ∈ visited ↔ lastPut puts owner subject = some value) ∧
        (visited.map Prod.fst).Nodup ∧
        visited.Pairwise fun earlier later => ∃ low high,
          compositeKey [owner, earlier.1] = .ok low ∧ compositeKey [owner, later.1] = .ok high ∧
            low < high) ∧
      (65535 < owner.length → ∀ subject, lastPut puts owner subject = none) := by
  have nothing : Paired (Bucket.empty : Bucket Bytes ν) := by
    intro key value found
    cases found
  obtain ⟨paired, lookups⟩ := putPairs_holds puts Bucket.empty bucket nothing stored
  simp only [lookupPair_empty, Option.or_none] at lookups
  refine ⟨?_, ?_, ?_⟩
  · intro malformed
    by_cases short : owner.length ≤ maxKeyPartLen
    · obtain ⟨visited, walked, _⟩ := forEachOwned_eq paired short
      rw [walked] at malformed
      cases malformed
    · have long : compositeKey [owner] = .error (.keyPartTooLong owner.length) := by
        simp [compositeKey, Nat.lt_of_not_le short]
      rw [forEachOwned, long] at malformed
      cases malformed
  · intro short
    obtain ⟨visited, walked, _⟩ := forEachOwned_eq paired short
    have ordered := forEachOwned_ordered paired short walked
    refine ⟨visited, walked, ?_, ?_, ordered⟩
    · intro subject value
      rw [mem_forEachOwned paired walked, lookups]
    · refine List.pairwise_map.mpr (ordered.imp ?_)
      rintro earlier later ⟨low, high, first, second, below⟩ same
      rw [same, second] at first
      cases first
      exact lt_irrefl _ below
  · intro long subject
    rw [← lookups]
    by_contra present
    obtain ⟨value, found⟩ := Option.ne_none_iff_exists'.mp present
    obtain ⟨key, encoded, _⟩ := lookupPair_eq_some_iff.mp found
    have short := ((compositeKey_eq_ok_iff _ _).mp encoded).1 owner (by simp)
    rw [maxKeyPartLen] at short
    omega

theorem forEachOwned_visits_nested :
    ∃ bucket, putPairs Bucket.empty [([1], [], 5), ([1, 0], [2], 6), ([1], [7], 8), ([1], [], 9)] =
        .ok bucket ∧ ∃ visited, forEachOwned bucket [1] = .ok visited ∧ ([], 9) ∈ visited := by
  refine ⟨_, rfl, ?_⟩
  obtain ⟨visited, walked, exactly, _⟩ :=
    (forEachOwned_visits_own [([1], [], 5), ([1, 0], [2], 6), ([1], [7], 8), ([1], [], 9)] _ rfl
      [1]).2.1 (by decide)
  exact ⟨visited, walked, (exactly [] 9).mpr (by decide)⟩

end Puts

end Keyed

end QuorumLimiter

namespace QuorumLimiter.Limiter

structure AppState where
  policies : Bucket Bytes Policy
  clients : Bucket Bytes Client
  clientPrefix : Bucket Bytes String
  tokenBuckets : Bucket Bytes TokenBucketState
  idempotency : Bucket Bytes DecisionRecord
  audit : Bucket Nat AuditEvent
  deriving DecidableEq

namespace AppState

def migrated : AppState :=
  ⟨Bucket.empty, Bucket.empty, Bucket.empty, Bucket.empty, Bucket.empty, Bucket.empty⟩

def getPolicy (app : AppState) (id : String) : Option Policy := app.policies.get (bytesOf id)

def putPolicy (app : AppState) (policy : Policy) : Except StoreError AppState := do
  let policies ← putKey app.policies (bytesOf policy.id) policy
  .ok { app with policies }

def getClient (app : AppState) (id : String) : Option Client := app.clients.get (bytesOf id)

def putClient (app : AppState) (client : Client) : Except StoreError AppState := do
  let clients ← putKey app.clients (bytesOf client.id) client
  .ok { app with clients }

def getClientIDByPrefix (app : AppState) (keyPrefix : String) : Option String :=
  app.clientPrefix.get (bytesOf keyPrefix)

def putClientPrefix (app : AppState) (keyPrefix clientID : String) :
    Except StoreError AppState := do
  let clientPrefix ← putKey app.clientPrefix (bytesOf keyPrefix) clientID
  .ok { app with clientPrefix }

def getTokenBucket (app : AppState) (policyID subject : String) :
    Except StoreError (Option TokenBucketState) :=
  getPair app.tokenBuckets (bytesOf policyID) (bytesOf subject)

def putTokenBucket (app : AppState) (policyID subject : String) (value : TokenBucketState) :
    Except StoreError AppState := do
  let tokenBuckets ← putPair app.tokenBuckets (bytesOf policyID) (bytesOf subject) value
  .ok { app with tokenBuckets }

def getIdempotency (app : AppState) (clientID requestID : String) :
    Except StoreError (Option DecisionRecord) :=
  getPair app.idempotency (bytesOf clientID) (bytesOf requestID)

def putIdempotency (app : AppState) (clientID requestID : String) (value : DecisionRecord) :
    Except StoreError AppState := do
  let idempotency ← putPair app.idempotency (bytesOf clientID) (bytesOf requestID) value
  .ok { app with idempotency }

def putAudit (app : AppState) (logIndex : Nat) (value : AuditEvent) : AppState :=
  { app with audit := app.audit.put logIndex value }

def forEachTokenBucketByPolicy (app : AppState) (policyID : String) :
    Except StoreError (List (Bytes × TokenBucketState)) :=
  forEachOwned app.tokenBuckets (bytesOf policyID)

def deleteIdempotency (app : AppState) (key : Bytes) : AppState :=
  { app with idempotency := app.idempotency.delete key }

def deleteAudit (app : AppState) (index : Nat) : AppState :=
  { app with audit := app.audit.delete index }

/-- The stored balance of a subject under a policy. -/
def tokenBucket (app : AppState) (policyID subject : String) : Option TokenBucketState :=
  lookupPair app.tokenBuckets (bytesOf policyID) (bytesOf subject)

/-- The stored decision on a client's request. -/
def decision (app : AppState) (clientID requestID : String) : Option DecisionRecord :=
  lookupPair app.idempotency (bytesOf clientID) (bytesOf requestID)

section Writes

variable {app after : AppState}

theorem putPolicy_ok {policy : Policy} (written : app.putPolicy policy = .ok after) :
    after = { app with policies := app.policies.put (bytesOf policy.id) policy } := by
  obtain ⟨policies, put, same⟩ := bind_ok written
  cases same
  rw [(putKey_ok put).1]

theorem putClient_ok {client : Client} (written : app.putClient client = .ok after) :
    after = { app with clients := app.clients.put (bytesOf client.id) client } := by
  obtain ⟨clients, put, same⟩ := bind_ok written
  cases same
  rw [(putKey_ok put).1]

theorem putClientPrefix_ok {keyPrefix clientID : String}
    (written : app.putClientPrefix keyPrefix clientID = .ok after) :
    after = { app with clientPrefix := app.clientPrefix.put (bytesOf keyPrefix) clientID } := by
  obtain ⟨clientPrefix, put, same⟩ := bind_ok written
  cases same
  rw [(putKey_ok put).1]

theorem putTokenBucket_ok {policyID subject : String} {value : TokenBucketState}
    (written : app.putTokenBucket policyID subject value = .ok after) :
    ∃ tokenBuckets, putPair app.tokenBuckets (bytesOf policyID) (bytesOf subject) value =
      .ok tokenBuckets ∧ after = { app with tokenBuckets } := by
  obtain ⟨tokenBuckets, put, same⟩ := bind_ok written
  cases same
  exact ⟨tokenBuckets, put, rfl⟩

theorem putIdempotency_ok {clientID requestID : String} {value : DecisionRecord}
    (written : app.putIdempotency clientID requestID value = .ok after) :
    ∃ idempotency, putPair app.idempotency (bytesOf clientID) (bytesOf requestID) value =
      .ok idempotency ∧ after = { app with idempotency } := by
  obtain ⟨idempotency, put, same⟩ := bind_ok written
  cases same
  exact ⟨idempotency, put, rfl⟩

end Writes

end AppState

end QuorumLimiter.Limiter
