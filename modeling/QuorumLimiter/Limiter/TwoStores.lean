import QuorumLimiter.Lib.TwoRuns
import QuorumLimiter.Limiter.Progress

/-!
One command on two stores. A handler that takes the same branches on both keeps them
related if its writes do, so each handler is followed once, through the rules below, for
any relation that says enough about what the handler reads.
-/

namespace QuorumLimiter.Limiter

/-- Both fail alike, or both return, with related stores and, where it is shown, one
result. -/
def Matched (shown : Prop) (related : AppState → AppState → Prop) (first second : ApplyResult) :
    Prop :=
  (∃ error, first = .error error ∧ second = .error error) ∨
    ∃ one two left right, first = .ok (one, left) ∧ second = .ok (two, right) ∧
      (shown → one = two) ∧ related left right

section Matching

variable {shown : Prop} {related : AppState → AppState → Prop} {left right : AppState}

theorem matched_ok {result : Result} (same : related left right) :
    Matched shown related (.ok (result, left)) (.ok (result, right)) :=
  Or.inr ⟨result, result, left, right, rfl, rfl, fun _ => rfl, same⟩

theorem matched_hidden {one two : Result} (hidden : ¬shown) (same : related left right) :
    Matched shown related (.ok (one, left)) (.ok (two, right)) :=
  Or.inr ⟨one, two, left, right, rfl, rfl, fun visible => absurd visible hidden, same⟩

theorem matched_validated {α : Type} {type : CommandType} {check : Except String α}
    {first second : α → ApplyResult} (same : related left right)
    (rest : ∀ value, check = .ok value → Matched shown related (first value) (second value)) :
    Matched shown related (validated left type check first)
      (validated right type check second) := by
  cases checked : check with
  | error text => exact matched_ok same
  | ok value => exact rest value checked

theorem matched_ite {test : Prop} [Decidable test] {first second firstElse secondElse : ApplyResult}
    (yes : Matched shown related first second)
    (no : ¬test → Matched shown related firstElse secondElse) :
    Matched shown related (if test then first else firstElse)
      (if test then second else secondElse) := by
  by_cases holds : test
  · rw [if_pos holds, if_pos holds]
    exact yes
  · rw [if_neg holds, if_neg holds]
    exact no holds

theorem matched_bind {α β : Type} {firstRun : Except ApplyError α} {secondRun : Except ApplyError β}
    {first : α → ApplyResult} {second : β → ApplyResult}
    (runs : (∃ error, firstRun = .error error ∧ secondRun = .error error) ∨
      ∃ one two, firstRun = .ok one ∧ secondRun = .ok two ∧
        Matched shown related (first one) (second two)) :
    Matched shown related (firstRun >>= first) (secondRun >>= second) := by
  rcases runs with ⟨error, rfl, rfl⟩ | ⟨one, two, rfl, rfl, rest⟩
  · exact Or.inl ⟨error, rfl, rfl⟩
  · exact rest

theorem matched_unmarshal {α : Type} {decode : Bytes → Option α} {raw : Bytes}
    {first second : α → ApplyResult}
    (rest : ∀ p, decode raw = some p → Matched shown related (first p) (second p)) :
    Matched shown related (unmarshalPayload decode raw >>= first)
      (unmarshalPayload decode raw >>= second) := by
  apply matched_bind
  cases ran : unmarshalPayload decode raw with
  | error error => exact Or.inl ⟨error, rfl, rfl⟩
  | ok p => exact Or.inr ⟨p, p, rfl, rfl, rest p (unmarshalPayload_ok ran)⟩

theorem matched_store {ν : Type} {one two : Except StoreError (Bucket Bytes ν)}
    {keepLeft keepRight : Bucket Bytes ν → AppState} {first second : AppState → ApplyResult}
    (writes : (∃ error, one = .error error ∧ two = .error error) ∨
      ∃ a b, one = .ok a ∧ two = .ok b ∧
        Matched shown related (first (keepLeft a)) (second (keepRight b))) :
    Matched shown related (storing (one >>= fun table => .ok (keepLeft table)) >>= first)
      (storing (two >>= fun table => .ok (keepRight table)) >>= second) := by
  apply matched_bind
  rcases writes with ⟨error, rfl, rfl⟩ | ⟨a, b, rfl, rfl, rest⟩
  · exact Or.inl ⟨.store error, rfl, rfl⟩
  · exact Or.inr ⟨_, _, rfl, rfl, rest⟩

theorem putKey_alike {ν : Type} (one two : Bucket Bytes ν) (key : Bytes) (first second : ν) :
    (∃ error, putKey one key first = .error error ∧ putKey two key second = .error error) ∨
      putKey one key first = .ok (one.put key first) ∧
        putKey two key second = .ok (two.put key second) := by
  unfold putKey
  by_cases empty : key.length = 0
  · exact Or.inl ⟨.keyRequired, if_pos empty, if_pos empty⟩
  by_cases long : key.length > maxKeySize
  · refine Or.inl ⟨.keyTooLarge, ?_, ?_⟩ <;> rw [if_neg empty, if_pos long]
  · refine Or.inr ⟨?_, ?_⟩ <;> rw [if_neg empty, if_neg long]

theorem putPair_alike {ν : Type} (one two : Bucket Bytes ν) (first second : Bytes)
    (left right : ν) :
    (∃ error, putPair one first second left = .error error ∧
        putPair two first second right = .error error) ∨
      ∃ a b, putPair one first second left = .ok a ∧ putPair two first second right = .ok b := by
  unfold putPair
  cases compositeKey [first, second] with
  | error error => exact Or.inl ⟨error, rfl, rfl⟩
  | ok key => exact (putKey_alike one two key left right).imp_right fun ⟨a, b⟩ => ⟨_, _, a, b⟩

theorem matched_put {ν : Type} (one two : Bucket Bytes ν) (key : Bytes) (first second : ν)
    {keepLeft keepRight : Bucket Bytes ν → AppState} {firstRest secondRest : AppState → ApplyResult}
    (rest : Matched shown related (firstRest (keepLeft (one.put key first)))
      (secondRest (keepRight (two.put key second)))) :
    Matched shown related
      (storing (putKey one key first >>= fun table => .ok (keepLeft table)) >>= firstRest)
      (storing (putKey two key second >>= fun table => .ok (keepRight table)) >>= secondRest) := by
  apply matched_store
  exact (putKey_alike one two key first second).imp_right fun ⟨a, b⟩ => ⟨_, _, a, b, rest⟩

theorem getPair_congr {ν : Type} {one two : Bucket Bytes ν} {first second : Bytes}
    (same : lookupPair one first second = lookupPair two first second) :
    getPair one first second = getPair two first second := by
  unfold lookupPair getPair at same
  unfold getPair
  cases encoded : compositeKey [first, second] with
  | error error => rfl
  | ok key =>
      rw [encoded] at same
      exact congrArg Except.ok same

end Matching

/-- The relation says that the stores have the same clients and the same ids of policies,
and does not depend on the audit trail. -/
structure Uniform (related : AppState → AppState → Prop) : Prop where
  clients : ∀ {left right}, related left right → left.clients = right.clients
  prefixes : ∀ {left right}, related left right → left.clientPrefix = right.clientPrefix
  absent : ∀ {left right}, related left right → ∀ id,
    left.getPolicy id = none ↔ right.getPolicy id = none
  putClients : ∀ {left right}, related left right → ∀ clients,
    related { left with clients } { right with clients }
  putPrefixes : ∀ {left right}, related left right → ∀ clientPrefix,
    related { left with clientPrefix } { right with clientPrefix }
  putPolicy : ∀ {left right}, related left right → ∀ policy : Policy,
    right.getPolicy policy.id = none →
    related { left with policies := left.policies.put (bytesOf policy.id) policy }
      { right with policies := right.policies.put (bytesOf policy.id) policy }
  putAudit : ∀ {left right}, related left right → ∀ one two,
    related { left with audit := one } { right with audit := two }

section Handlers

variable {lib : Stdlib} {ctx : ApplyContext} {cmd : Command} {shown : Prop}
  {related : AppState → AppState → Prop} {left right : AppState}

theorem uniform_getClient (uniform : Uniform related) (same : related left right) (id : String) :
    left.getClient id = right.getClient id := by
  rw [AppState.getClient, uniform.clients same]
  rfl

theorem matched_audited {result : Result} {index : Nat} {one two : AuditEvent}
    (uniform : Uniform related) (same : related left right) :
    Matched shown related (.ok (result, left.putAudit index one))
      (.ok (result, right.putAudit index two)) :=
  matched_ok (uniform.putAudit same _ _)

theorem createPolicy_matched (uniform : Uniform related) (same : related left right) :
    Matched shown related (applyCreatePolicy lib ctx cmd left)
      (applyCreatePolicy lib ctx cmd right) := by
  refine matched_unmarshal fun p _ => ?_
  refine matched_validated same fun _ _ => ?_
  refine matched_validated same fun name _ => ?_
  refine matched_validated same fun _ _ => ?_
  have absent := uniform.absent same p.id
  cases found : right.getPolicy p.id with
  | none =>
      rw [absent.mpr found]
      refine matched_put left.policies right.policies _ _ _ ?_
      exact matched_audited uniform (uniform.putPolicy same _ found)
  | some policy =>
      obtain ⟨other, stored⟩ := Option.ne_none_iff_exists'.mp
        (fun missing => by cases (absent.mp missing).symm.trans found)
      rw [stored]
      exact matched_ok same

theorem createClient_matched (uniform : Uniform related) (same : related left right) :
    Matched shown related (applyCreateClient lib ctx cmd left)
      (applyCreateClient lib ctx cmd right) := by
  have missing : ∀ ids, missingPolicy left ids = missingPolicy right ids := by
    intro ids
    have none : ∀ id, (left.getPolicy id).isNone = (right.getPolicy id).isNone := by
      intro id
      rw [Bool.eq_iff_iff, Option.isNone_iff_eq_none, Option.isNone_iff_eq_none]
      exact uniform.absent same id
    simp only [missingPolicy, none]
  have indexed : ∀ key, left.getClientIDByPrefix key = right.getClientIDByPrefix key := by
    intro key
    rw [AppState.getClientIDByPrefix, uniform.prefixes same]
    rfl
  refine matched_unmarshal fun p _ => ?_
  refine matched_validated same fun name _ => ?_
  refine matched_validated same fun _ _ => ?_
  rw [uniform_getClient uniform same, indexed, missing]
  refine matched_ite (matched_ok same) fun _ => ?_
  refine matched_ite (matched_ok same) fun _ => ?_
  refine matched_ite (matched_ok same) fun _ => ?_
  cases missingPolicy right p.allowedPolicyIDs with
  | some id => exact matched_ok same
  | none =>
      refine matched_put left.clients right.clients _ _ _ ?_
      refine matched_put left.clientPrefix right.clientPrefix _ _ _ ?_
      rw [uniform.clients same, uniform.prefixes same]
      exact matched_audited uniform (uniform.putPrefixes (uniform.putClients same _) _)

theorem revokeClient_matched (uniform : Uniform related) (same : related left right) :
    Matched shown related (applyRevokeClient lib ctx cmd left)
      (applyRevokeClient lib ctx cmd right) := by
  refine matched_unmarshal fun p _ => ?_
  rw [uniform_getClient uniform same]
  cases right.getClient p.id with
  | none => exact matched_ok same
  | some old =>
      refine matched_ite (matched_ok same) fun _ => ?_
      refine matched_put left.clients right.clients _ _ _ ?_
      rw [uniform.clients same]
      exact matched_audited uniform (uniform.putClients same _)

end Handlers

section Entries

variable (lib : Stdlib)

/-- The answer to one entry, and the store after it. A Go error rolls back. -/
def applyNext (state : Nat × AppState) (entry : LogEntry) :
    Except ApplyError Result × (Nat × AppState) :=
  match applyEntry lib entry.index entry.term entry state with
  | .error error => (.error error, state)
  | .ok (result, next) => (.ok result, next)

variable {lib} {entry : LogEntry} {cmd : Command}

theorem applyNext_quiet (state : Nat × AppState) (quiet : entry.kind ≠ .command) :
    applyNext lib state entry = (.ok { outcome := .applied }, entry.index, state.2) := by
  rw [applyNext, applyEntry, if_pos quiet]

theorem applyNext_unread (state : Nat × AppState) (kind : entry.kind = .command)
    (unread : lib.command entry.command = none) :
    applyNext lib state entry = (.error .decodeCommand, state) := by
  rw [applyNext, applyEntry, if_neg (not_not.mpr kind), unread]

theorem applyNext_command (state : Nat × AppState) (kind : entry.kind = .command)
    (read : lib.command entry.command = some cmd) :
    applyNext lib state entry =
      match applyTx lib ⟨entry.index, entry.term⟩ cmd state.2 with
      | .error error => (.error error, state)
      | .ok (result, app) => (.ok result, entry.index, app) := by
  rw [applyNext, applyEntry, if_neg (not_not.mpr kind), read]
  simp only [apply]
  cases applyTx lib ⟨entry.index, entry.term⟩ cmd state.2 <;> rfl

theorem rel_cases {α β : Type} {related : α → β → Prop} {one : Option α} {two : Option β}
    (rel : Option.Rel related one two) :
    one = none ∧ two = none ∨ ∃ first second, one = some first ∧ two = some second ∧
      related first second := by
  cases rel with
  | none => exact Or.inl ⟨rfl, rfl⟩
  | some alike => exact Or.inr ⟨_, _, rfl, rfl, alike⟩

theorem applyNext_keeps (valid : AppState → Prop) {state : Nat × AppState}
    (keeps : ∀ cmd result after, entry.kind = .command → lib.command entry.command = some cmd →
      Effect lib ⟨entry.index, entry.term⟩ cmd state.2 result after → valid after)
    (holds : valid state.2) : valid (applyNext lib state entry).2.2 := by
  by_cases quiet : entry.kind ≠ .command
  · rw [applyNext_quiet state quiet]
    exact holds
  have kind := not_not.mp quiet
  cases read : lib.command entry.command with
  | none =>
      rw [applyNext_unread state kind read]
      exact holds
  | some cmd =>
      rw [applyNext_command state kind read]
      cases ran : applyTx lib ⟨entry.index, entry.term⟩ cmd state.2 with
      | error error => exact holds
      | ok next => exact keeps cmd next.1 next.2 kind read (applyTx_effect ran)

theorem applyNext_matched {fits : Command → Command → Prop} {shown : Command → Prop}
    {related : AppState → AppState → Prop} {one two : LogEntry} {left right : Nat × AppState}
    (index : one.index = two.index) (term : one.term = two.term) (kind : one.kind = two.kind)
    (commands : Option.Rel fits (lib.command one.command) (lib.command two.command))
    (matched : ∀ cmd other, one.kind = .command → lib.command one.command = some cmd →
      fits cmd other → Matched (shown cmd) related (applyTx lib ⟨one.index, one.term⟩ cmd left.2)
        (applyTx lib ⟨one.index, one.term⟩ other right.2))
    (same : related left.2 right.2) :
    related (applyNext lib left one).2.2 (applyNext lib right two).2.2 ∧
      ((∃ cmd, lib.command one.command = some cmd ∧ shown cmd) →
        (applyNext lib left one).1 = (applyNext lib right two).1) := by
  by_cases quiet : one.kind ≠ .command
  · rw [applyNext_quiet left quiet, applyNext_quiet right (kind ▸ quiet)]
    exact ⟨same, fun _ => rfl⟩
  have noted := not_not.mp quiet
  rcases rel_cases commands with ⟨unread, again⟩ | ⟨cmd, other, read, again, pair⟩
  · rw [applyNext_unread left noted unread, applyNext_unread right (kind ▸ noted) again]
    exact ⟨same, fun _ => rfl⟩
  · rw [applyNext_command left noted read, applyNext_command right (kind ▸ noted) again, ← index,
      ← term]
    rcases matched cmd other noted read pair with ⟨error, failed, failedAgain⟩ |
      ⟨first, second, l, r, ranLeft, ranRight, equal, kept⟩
    · rw [failed, failedAgain]
      exact ⟨same, fun _ => rfl⟩
    · rw [ranLeft, ranRight]
      refine ⟨kept, ?_⟩
      rintro ⟨shownCmd, readAgain, visible⟩
      cases read.symm.trans readAgain
      exact congrArg Except.ok (equal visible)

end Entries

end QuorumLimiter.Limiter
