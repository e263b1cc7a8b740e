import QuorumLimiter.Auth.ApiKey
import QuorumLimiter.Limiter.ExactlyOnce

/-!
The life of an API key on the cluster. Nodes look keys up in their own stores, which
may be behind. A key works on every node that has come as far as its creation, and
once its revocation has returned nothing asked for later is decided for it: a node that
is still behind lets the request through, and the log refuses it.
-/

namespace QuorumLimiter.Auth

open Limiter Relation

/-- The entry asks for the client to be revoked. -/
def Revokes (lib : Stdlib) (entry : LogEntry) (id : String) : Prop :=
  ∃ cmd, lib.command entry.command = some cmd ∧ cmd.type = .revokeClient ∧
    lib.revokeClient cmd.payload = some ⟨id⟩

def Creates (lib : Stdlib) (entry : LogEntry) (p : CreateClientPayload) : Prop :=
  ∃ cmd, lib.command entry.command = some cmd ∧ cmd.type = .createClient ∧
    lib.createClient cmd.payload = some p

def Inactive (id : String) (app : AppState) : Prop :=
  ∃ client, app.getClient id = some client ∧ client.active = false

section Replays

variable {lib : Stdlib} {ctx : ApplyContext} {cmd : Command} {app next : AppState}
  {result : Result} {id : String}

theorem replay_clients {entries : List LogEntry} {after : Nat × AppState}
    (replayed : replay (some (applyFunc lib)) 1 entries (0, AppState.migrated) = .ok after) :
    Keyed after.2 ∧ Indexed after.2 := by
  rw [← replay_finish lib 1 entries (0, AppState.migrated) after 0 replayed]
  exact ⟨keyed_finish _ _ keyed_migrated, indexed_finish _ _ keyed_migrated indexed_migrated⟩

theorem revoke_applied (keyed : Keyed app) (effect : Effect lib ctx cmd app result next)
    (typed : cmd.type = .revokeClient) (payload : lib.revokeClient cmd.payload = some ⟨id⟩)
    (applied : result.outcome = .applied) : Inactive id next := by
  cases effect with
  | rejected code msg => cases applied
  | revokedAgain p old _ again found inactive =>
      cases payload.symm.trans again
      exact ⟨old, found, inactive⟩
  | revokedClient p old _ again found active =>
      cases payload.symm.trans again
      have clients := getClient_put app (old.revoked cmd.timestampMS) old.id id
      rw [if_pos (keyed_getClient keyed found).1.symm] at clients
      exact ⟨_, clients, rfl⟩
  | createdPolicy p name other => cases typed.symm.trans other
  | updatedPolicy p old name visited tokenBuckets other => cases typed.symm.trans other
  | switchedPolicy p old other => cases typed.symm.trans other
  | createdClient p name other => cases typed.symm.trans other
  | replayed p prior other => cases typed.symm.trans other
  | charged p policy bucket settled allowed retryAfter tokenBuckets idempotency other =>
      cases typed.symm.trans other
  | pruned p other => cases typed.symm.trans other

theorem inactive_effect (keyed : Keyed app) (effect : Effect lib ctx cmd app result next)
    (inactive : Inactive id app) : Inactive id next := by
  obtain ⟨client, stored, stopped⟩ := inactive
  have held := client_effect keyed effect (0, app) (0, next) stored
  unfold Auth.Held at held
  split at held
  · obtain ⟨later, found, still, _⟩ := held
    exact ⟨later, found, still⟩
  · exact ⟨client, held, stopped⟩

theorem replay_inactive (index : Nat) (entries : List LogEntry) (state after : Nat × AppState)
    (replayed : replay (some (applyFunc lib)) index entries state = .ok after)
    (keyed : Keyed state.2) (inactive : Inactive id state.2) : Inactive id after.2 := by
  refine (replay_keeps (fun app => Keyed app ∧ Inactive id app) index entries state after ?_
    replayed ⟨keyed, inactive⟩).2
  rintro entry _ _ ctx cmd app result next _ effect ⟨keyed, inactive⟩
  exact ⟨keyed_effect keyed effect, inactive_effect keyed effect inactive⟩

theorem replay_client {client : Client} (index : Nat) (entries : List LogEntry)
    (state after : Nat × AppState)
    (spared : ∀ entry ∈ entries, entry.kind = .command → ¬ Revokes lib entry id)
    (replayed : replay (some (applyFunc lib)) index entries state = .ok after)
    (keyed : Keyed state.2) (stored : state.2.getClient id = some client) :
    after.2.getClient id = some client := by
  refine (replay_keeps (fun app => Keyed app ∧ app.getClient id = some client) index entries state
    after ?_ replayed ⟨keyed, stored⟩).2
  rintro entry member command ctx cmd app result next decoded effect ⟨keyed, stored⟩
  have held := client_effect keyed effect (0, app) (0, next) stored
  rw [Auth.Held, if_neg] at held
  · exact ⟨keyed_effect keyed effect, held⟩
  · intro revoked
    simp only [revokes, decide_eq_true_eq] at revoked
    exact spared entry member command ⟨cmd, decoded, revoked.1, revoked.2.2⟩

theorem inactive_repeats {p : DecidePayload} (effect : Effect lib ctx cmd app result next)
    (payload : lib.decide cmd.payload = some p) (inactive : Inactive p.clientID app)
    (decided : result.decision.isSome) : result.duplicate = true := by
  cases effect with
  | replayed => rfl
  | charged q policy bucket settled allowed retryAfter tokenBuckets idempotency typed again shape
      fresh authorized =>
      cases payload.symm.trans again
      obtain ⟨_, _, _, client, known, active, _⟩ := authorize_ok authorized
      obtain ⟨stored, found, stopped⟩ := inactive
      cases known.symm.trans found
      cases active.symm.trans stopped
  | _ => cases decided

end Replays

section Order

variable {lib : Stdlib} {c : Cluster AppState Result} {u : World AppState Result}
  {order : List LogEntry}

theorem answered_left (machine : c.apply = some (applyFunc lib))
    (fresh : c.app = AppState.migrated) {entry : LogEntry} {result : Result}
    (command : entry.kind = .command) (answered : Answered c order entry (some result))
    {later : Nat} (reach : entry.index ≤ later) {last : Nat × AppState}
    (replayed : replay c.apply 1 (order.take later) (0, c.app) = .ok last) :
    ∃ (cmd : Command) (state middle : Nat × AppState) (between : List LogEntry),
      lib.command entry.command = some cmd ∧ between ⊆ order ∧
      Keyed state.2 ∧ Effect lib ⟨entry.index, entry.term⟩ cmd state.2 result middle.2 ∧
      replay (some (applyFunc lib)) (entry.index + 1) between middle = .ok last := by
  obtain ⟨state, middle, between, inside, before, stepped, more⟩ :=
    answered_take answered reach replayed
  rw [machine] at stepped more
  rw [machine, fresh] at before
  obtain ⟨cmd, applied, decoded, same, ran⟩ := transition_applied command stepped
  cases same
  exact ⟨cmd, state, middle, between, decoded, inside, (replay_clients before).1,
    (apply_effect ran).2, more⟩

theorem revoked_inactive (machine : c.apply = some (applyFunc lib))
    (fresh : c.app = AppState.migrated) {entry : LogEntry} {result : Result} {id : String}
    (command : entry.kind = .command) (asked : Revokes lib entry id)
    (answered : Answered c order entry (some result)) (applied : result.outcome = .applied)
    {later : Nat} (reach : entry.index ≤ later) {last : Nat × AppState}
    (replayed : replay c.apply 1 (order.take later) (0, c.app) = .ok last) :
    Inactive id last.2 := by
  obtain ⟨cmd, state, middle, between, decoded, _, keyed, effect, more⟩ :=
    answered_left machine fresh command answered reach replayed
  obtain ⟨_, known, typed, payload⟩ := asked
  cases known.symm.trans decoded
  exact replay_inactive _ between middle last more (keyed_effect keyed effect)
    (revoke_applied keyed effect typed payload applied)

end Order

/-- Once a revocation has returned, nothing asked for later is decided anew for the
client, on whatever node, and no node that has come so far accepts a key of it. -/
theorem revocation_final (c : Cluster AppState Result) (lib : Stdlib)
    (machine : c.apply = some (applyFunc lib)) (fresh : c.app = AppState.migrated)
    (w u : World AppState Result) (reachable : c.Reachable Plan.clean w)
    (run : c.Later Plan.clean w u) (j : Nat) (entry : LogEntry) (result : Result) (id : String)
    (returned : w.Returned j entry (some result)) (asked : Revokes lib entry id)
    (applied : result.outcome = .applied) :
    (∀ k second answer p, w.proposals.length ≤ k → u.Returned k second (some answer) →
      Decides lib second p → p.clientID = id → answer.decision.isSome →
      answer.duplicate = true) ∧
    ∀ node, entry.index ≤ (u.members node).store.lastApplied → ∀ hmac pepper rawKey client,
      APIKeyAuthenticator.authenticate hmac
        ⟨pepper, storeClients (u.members node).store.app⟩ rawKey = .ok client →
      client.id ≠ id := by
  have checkpoints := applyFunc_machine machine
  have later := reachable.trans run
  obtain ⟨top, greatest⟩ := highest_commit later
  have linear := longest_linearizes checkpoints later greatest
  have answered := earlier_answered checkpoints linear reachable run returned
  have stopped {place : Nat} (reach : entry.index ≤ place) {last : Nat × AppState}
      (replayed : replay c.apply 1 ((u.committedLog top).take place) (0, c.app) = .ok last) :
      Inactive id last.2 :=
    revoked_inactive machine fresh (returned_command reachable returned) asked answered applied
      reach replayed
  refine ⟨?_, ?_⟩
  · intro k second answer p new told decides same decided
    have before := linear.realTime w reachable run j entry _ returned k second _ new told
    obtain ⟨_, _, state, next, replayed, stepped⟩ := linear.answers k second _ told
    have inactive := stopped (Nat.le_sub_one_of_lt before) replayed
    rw [machine] at stepped
    obtain ⟨_, _, decoded, same', ran⟩ := transition_applied (returned_command later told) stepped
    cases same'
    obtain ⟨_, known, _, payload⟩ := decides
    cases known.symm.trans decoded
    rw [← same] at inactive
    exact inactive_repeats (apply_effect ran).2 payload inactive decided
  · rintro node reach hmac pepper rawKey client accepted rfl
    have replayed := (linear.states u later ReflTransGen.refl node).2
    obtain ⟨stored, found, inactive⟩ := stopped reach replayed
    rw [machine, fresh] at replayed
    obtain ⟨keyed, indexed⟩ := replay_clients replayed
    obtain ⟨_, _, _, _, _, known, active, _⟩ :=
      (authenticate_ok_iff keyed indexed client).mp accepted
    cases found.symm.trans known
    cases inactive.symm.trans active

/-- A key that was handed out is accepted for its client on every node that has come
as far as its creation, as long as no call asks for the client to be revoked. -/
theorem created_key_accepted (c : Cluster AppState Result) (lib : Stdlib)
    (machine : c.apply = some (applyFunc lib)) (fresh : c.app = AppState.migrated)
    (w u : World AppState Result) (reachable : c.Reachable Plan.clean w)
    (run : c.Later Plan.clean w u) (hmac : Bytes → Bytes → Bytes) (pepper pb sb : Bytes)
    (five : pb.length = 5) (more : sb.length = 32) (j : Nat) (entry : LogEntry) (result : Result)
    (p : CreateClientPayload) (returned : w.Returned j entry (some result))
    (asked : Creates lib entry p) (applied : result.outcome = .applied)
    (named : p.keyPrefix = (generateAPIKey pb sb).2)
    (digest : p.keyDigest = hmac pepper (bytesOf (generateAPIKey pb sb).1))
    (spared : ∀ k origin other, registration u.proposals k = some (origin, other) →
      ¬ Revokes lib other p.id) :
    ∀ node, entry.index ≤ (u.members node).store.lastApplied → ∃ client, client.id = p.id ∧
      APIKeyAuthenticator.authenticate hmac ⟨pepper, storeClients (u.members node).store.app⟩
        (bytesOf (generateAPIKey pb sb).1) = .ok client := by
  intro node reach
  have checkpoints := applyFunc_machine machine
  have later := reachable.trans run
  obtain ⟨top, greatest⟩ := highest_commit later
  have linear := longest_linearizes checkpoints later greatest
  have answered := earlier_answered checkpoints linear reachable run returned
  have replayed := (linear.states u later ReflTransGen.refl node).2
  obtain ⟨cmd, state, middle, between, decoded, inside, keyed, effect, more'⟩ :=
    answered_left machine fresh (returned_command reachable returned) answered reach replayed
  obtain ⟨_, known, typed, payload⟩ := asked
  cases known.symm.trans decoded
  obtain ⟨client, _, stored, own, prefixed, matched, active⟩ :=
    createClient_applied typed payload effect applied
  have quiet : ∀ other ∈ between, other.kind = .command → ¬ Revokes lib other p.id := by
    intro other member command
    obtain ⟨k, origin, called⟩ := linear.proposed other (inside member) command
    exact spared k origin other (called_registered called)
  have kept := replay_client _ between middle _ quiet more' (keyed_effect keyed effect) stored
  rw [machine, fresh] at replayed
  have parsed := parse_generateAPIKey five more
  rw [← named, ← prefixed] at parsed
  refine ⟨client, own, ?_⟩
  rw [authenticate_stored (replay_clients replayed).2 kept parsed,
    if_pos ⟨matched.trans digest, active⟩]

section Sample

def keyCluster : Cluster AppState Result := { limiterTrio with apply := some (applyFunc keyLib) }

/-- A policy, a client, a decision for the client, and its revocation. -/
def revokedClient : List Event :=
  electFirst ++ [[0, 0, 5, 2], [3, 0], [5, 1, 1, 3], [4, 2]].map (.propose "a") ++
    [.deliver 10, .respond 10 1, .collect 3]

theorem revocation_final_sample : ∃ w u result answer, keyCluster.Reachable Plan.clean w ∧
    keyCluster.Later Plan.clean w u ∧ w.Returned 3 ⟨5, 1, .command, [4, 2]⟩ (some result) ∧
    result.outcome = .applied ∧ u.Returned 4 ⟨6, 1, .command, [5, 3, 1, 3]⟩ (some answer) ∧
    answer.decision.isSome ∧ answer.duplicate = true := by
  obtain ⟨w, u, reachable, run, before, after⟩ := smoothly_reaches keyCluster smooth_clean
    revokedClient [.propose "a" [5, 3, 1, 3], .deliver 14, .respond 14 2, .collect 4]
    (fun w => (w.proposals.length, w.proposals[3]?.map fun call =>
      (call.entry, returnedAs (fun result => result.outcome) call.state)))
    (fun u => u.proposals[4]?.map fun call =>
      (call.entry, returnedAs (fun result => result.decision.isSome) call.state))
    (by decide +kernel : _ = some (4, some (⟨5, 1, .command, [4, 2]⟩, some .applied)))
    (by decide +kernel : _ = some (some (⟨6, 1, .command, [5, 3, 1, 3]⟩, some true)))
  obtain ⟨length, told⟩ := Prod.mk.inj before
  obtain ⟨result, returned, applied⟩ := returnedAs_returned told
  obtain ⟨answer, answered, decided⟩ := returnedAs_returned after
  obtain ⟨repeats, _⟩ := revocation_final keyCluster keyLib rfl rfl w u reachable run 3 _ result
    "client-a" returned ⟨_, rfl, rfl, rfl⟩ applied
  exact ⟨w, u, result, answer, reachable, run, returned, applied, answered, decided,
    repeats 4 _ answer (sampleRequest 3) (Nat.le_of_eq length) answered ⟨_, rfl, rfl, rfl⟩ rfl
      decided⟩

theorem created_key_accepted_sample : ∃ u client, keyCluster.Reachable Plan.clean u ∧
    client.id = "client-a" ∧ APIKeyAuthenticator.authenticate (· ++ ·)
      ⟨[9], storeClients (u.members "b").store.app⟩ (bytesOf sampleKey.1) = .ok client := by
  obtain ⟨w, u, reachable, run, told, later⟩ := smoothly_reaches keyCluster smooth_clean
    (electFirst ++ [[0, 0, 5, 2], [3, 0]].map (.propose "a") ++
      [.deliver 6, .respond 6 1, .collect 1]) [.deliver 8]
    (fun w => w.proposals[1]?.map fun call =>
      (call.entry, returnedAs (fun result => result.outcome) call.state))
    (fun u => ((u.members "b").store.lastApplied, u.proposals.map fun call => call.entry.command))
    (by decide +kernel : _ = some (some (⟨3, 1, .command, [3, 0]⟩, some .applied)))
    (by decide +kernel : _ = some (3, ([[0, 0, 5, 2], [3, 0]] : List (List UInt8))))
  obtain ⟨result, returned, applied⟩ := returnedAs_returned told
  obtain ⟨reach, calls⟩ := Prod.mk.inj later
  obtain ⟨client, own, accepted⟩ := created_key_accepted keyCluster keyLib rfl rfl w u reachable run
    (· ++ ·) [9] [1, 2, 3, 4, 5] (List.replicate 32 255) rfl (by simp) 1 _ result
    ⟨"client-a", "Client A", sampleKey.2, [9] ++ bytesOf sampleKey.1, ["*"]⟩ returned
    ⟨_, rfl, rfl, rfl⟩ applied rfl rfl (by
      rintro k origin other registered ⟨cmd, decoded, typed, _⟩
      obtain ⟨call, found, same⟩ := Option.map_eq_some_iff.mp registered
      cases same
      have member := List.mem_map_of_mem (f := fun call : Proposal Result => call.entry.command)
        (List.mem_of_getElem? found)
      rw [calls] at member
      simp only [List.mem_cons, List.not_mem_nil, or_false] at member
      rcases member with same | same <;> rw [same] at decoded <;> cases decoded <;> cases typed)
    "b" (Nat.le_of_eq reach.symm)
  exact ⟨u, client, reachable.trans run, own, accepted⟩

end Sample

end QuorumLimiter.Auth
