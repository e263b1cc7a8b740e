import QuorumLimiter.Lib.BaseText
import QuorumLimiter.Limiter.Authorization
import QuorumLimiter.Limiter.Keys

/-!
API keys. A key names its client by a prefix of fixed length; the store maps prefixes to
client ids, and a client holds the digest of its whole key. The index and the clients say
the same, so a key is accepted for the one client it was made for as long as that client
is active. HMAC and the digests it makes are a parameter.
-/

namespace QuorumLimiter.Auth

open Limiter

section Keys

/-- `base32.StdEncoding` without padding. -/
def base32NoPad (bytes : Bytes) : String :=
  String.ofList (BaseText.encode "ABCDEFGHIJKLMNOPQRSTUVWXYZ234567".toList 5 bytes)

/-- `base64.RawURLEncoding`. -/
def rawURLEncoding (bytes : Bytes) : String :=
  String.ofList (BaseText.encode
    "ABCDEFGHIJKLMNOPQRSTUVWXYZabcdefghijklmnopqrstuvwxyz0123456789-_".toList 6 bytes)

example : base32NoPad (bytesOf "fooba") = "MZXW6YTB" := by decide +kernel

example : rawURLEncoding [251, 255, 191, 0] = "-_-_AA" := by decide +kernel

def keyScheme : String := "qlk"

def keyPrefixLen : Nat := 8

inductive AuthError
  | invalidAPIKey
  | store (error : StoreError)
  deriving DecidableEq, Repr

def cutPrefix (text start : Bytes) : Option Bytes :=
  if start <+: text then some (text.drop start.length) else none

def parseKeyPrefix (rawKey : Bytes) : Except AuthError Bytes :=
  match cutPrefix rawKey (bytesOf (keyScheme ++ "_")) with
  | none => .error .invalidAPIKey
  | some rest =>
      if rest.length < keyPrefixLen + 1 ∨ rest[keyPrefixLen]? ≠ some 95 then .error .invalidAPIKey
      else if rest.take keyPrefixLen = [] ∨ rest.drop (keyPrefixLen + 1) = [] then
        .error .invalidAPIKey
      else .ok (rest.take keyPrefixLen)

/-- The raw key and its lookup prefix, from the five and the thirty-two random bytes. -/
def generateAPIKey (pb sb : Bytes) : String × String :=
  (keyScheme ++ "_" ++ base32NoPad pb ++ "_" ++ rawURLEncoding sb, base32NoPad pb)

/-- What `rand.Read` fills a new slice with, unless it fails. -/
abbrev Random (length : Nat) := Option { bytes : Bytes // bytes.length = length }

def generateClientID (b : Random 10) : Option String := b.map fun b => "cli_" ++ base32NoPad b.1

structure ClientReader where
  clientIDByPrefix : Bytes → Except StoreError (Option String)
  client : String → Except StoreError (Option Client)

structure APIKeyAuthenticator where
  pepper : Bytes
  clients : ClientReader

def APIKeyAuthenticator.digest (hmac : Bytes → Bytes → Bytes) (a : APIKeyAuthenticator)
    (rawKey : Bytes) : Bytes := hmac a.pepper rawKey

def APIKeyAuthenticator.authenticate (hmac : Bytes → Bytes → Bytes) (a : APIKeyAuthenticator)
    (rawKey : Bytes) : Except AuthError Client := do
  let keyPrefix ← parseKeyPrefix rawKey
  match ← (a.clients.clientIDByPrefix keyPrefix).mapError AuthError.store with
  | none => .error .invalidAPIKey
  | some clientID =>
      match ← (a.clients.client clientID).mapError AuthError.store with
      | none => .error .invalidAPIKey
      | some client =>
          if client.keyDigest ≠ a.digest hmac rawKey then .error .invalidAPIKey
          else if !client.active then .error .invalidAPIKey
          else .ok client

/-- The store as the authenticator reads it. -/
def storeClients (app : AppState) : ClientReader where
  clientIDByPrefix keyPrefix := .ok (app.clientPrefix.get keyPrefix)
  client id := .ok (app.getClient id)

end Keys

section Parsing

theorem bytesOf_append (left right : String) :
    bytesOf (left ++ right) = bytesOf left ++ bytesOf right := by
  simp [bytesOf]

theorem underscore : bytesOf "_" = [95] := by decide +kernel

theorem cutPrefix_eq_some_iff (text start rest : Bytes) :
    cutPrefix text start = some rest ↔ text = start ++ rest := by
  unfold cutPrefix
  split
  · rename_i begins
    obtain ⟨tail, rfl⟩ := begins
    simp
  · rename_i other
    refine iff_of_false (by simp) ?_
    rintro rfl
    exact other (List.prefix_append _ _)

theorem parseKeyPrefix_eq_ok_iff (rawKey keyPrefix : Bytes) :
    parseKeyPrefix rawKey = .ok keyPrefix ↔
      ∃ secret, rawKey = bytesOf "qlk_" ++ (keyPrefix ++ bytesOf "_" ++ secret) ∧
        keyPrefix.length = 8 ∧ secret ≠ [] := by
  have scheme : keyScheme ++ "_" = "qlk_" := by decide
  unfold parseKeyPrefix
  rw [scheme, underscore]
  constructor
  · intro parsed
    split at parsed
    · contradiction
    · rename_i rest cut
      obtain rfl := (cutPrefix_eq_some_iff _ _ _).mp cut
      split at parsed
      · contradiction
      · rename_i marked
        split at parsed
        · contradiction
        · rename_i filled
          cases parsed
          simp only [keyPrefixLen, not_or, not_lt, not_not] at marked filled ⊢
          obtain ⟨bound, mark⟩ := List.getElem?_eq_some_iff.mp marked.2
          refine ⟨rest.drop 9, ?_, ?_, filled.2⟩
          · rw [List.append_assoc, ← mark, List.singleton_append, List.getElem_cons_drop,
              List.take_append_drop]
          · rw [List.length_take]
            omega
  · rintro ⟨secret, rfl, length, filled⟩
    rw [(cutPrefix_eq_some_iff _ _ _).mpr rfl]
    have long : keyPrefixLen = keyPrefix.length := length.symm
    have first : keyPrefix ≠ [] := by
      rintro rfl
      cases length
    simp only [long, List.append_assoc, List.length_append, List.length_cons,
      List.take_left, List.getElem?_append_right (le_refl _), Nat.sub_self, List.singleton_append]
    rw [if_neg (by simp), if_neg]
    rw [not_or, List.drop_append, Nat.add_sub_cancel_left, List.drop_eq_nil_of_le (by omega)]
    exact ⟨first, filled⟩

theorem parseKeyPrefix_error {rawKey : Bytes} {error : AuthError}
    (failed : parseKeyPrefix rawKey = .error error) : error = .invalidAPIKey := by
  unfold parseKeyPrefix at failed
  split at failed
  · cases failed
    rfl
  · split at failed
    · cases failed
      rfl
    · split at failed
      · cases failed
        rfl
      · cases failed

theorem base32NoPad_length (bytes : Bytes) :
    (bytesOf (base32NoPad bytes)).length = BaseText.encodedLen 5 bytes.length :=
  (JsonText.size_encoded _).trans (BaseText.size_encode (by decide +kernel) 5 bytes)

theorem rawURLEncoding_length (bytes : Bytes) :
    (bytesOf (rawURLEncoding bytes)).length = BaseText.encodedLen 6 bytes.length :=
  (JsonText.size_encoded _).trans (BaseText.size_encode (by decide +kernel) 6 bytes)

theorem parse_generateAPIKey {pb sb : Bytes} (five : pb.length = 5) (more : sb.length = 32) :
    parseKeyPrefix (bytesOf (generateAPIKey pb sb).1) = .ok (bytesOf (generateAPIKey pb sb).2) := by
  have short := base32NoPad_length pb
  have long := rawURLEncoding_length sb
  rw [five] at short
  rw [more] at long
  rw [parseKeyPrefix_eq_ok_iff]
  refine ⟨bytesOf (rawURLEncoding sb), ?_, short, ?_⟩
  · have scheme : keyScheme ++ "_" = "qlk_" := by decide
    simp only [generateAPIKey, scheme, bytesOf_append, List.append_assoc]
  · intro empty
    rw [empty] at long
    cases long

end Parsing

/-- The index maps a prefix to the client that has it, and to no other. -/
def Indexed (app : AppState) : Prop :=
  ∀ key id, app.clientPrefix.get key = some id ↔
    ∃ client, app.getClient id = some client ∧ bytesOf client.keyPrefix = key

section Index

variable {lib : Stdlib} {ctx : ApplyContext} {cmd : Command} {app after : AppState}
  {result : Result}

theorem indexed_migrated : Indexed AppState.migrated := by
  intro key id
  refine iff_of_false (by rintro ⟨⟩) ?_
  rintro ⟨client, ⟨⟩, _⟩

theorem indexed_created {p : CreateClientPayload} {client : Client} {audit : Bucket Nat AuditEvent}
    (indexed : Indexed app) (absent : app.getClient p.id = none)
    (free : app.getClientIDByPrefix p.keyPrefix = none) (same : client.keyPrefix = p.keyPrefix) :
    Indexed { app with
      clients := app.clients.put (bytesOf p.id) client
      clientPrefix := app.clientPrefix.put (bytesOf p.keyPrefix) p.id
      audit } := by
  intro key id
  have clients := getClient_put app client p.id id
  change (app.clientPrefix.put (bytesOf p.keyPrefix) p.id).get key = some id ↔
    ∃ client', ({ app with clients := app.clients.put (bytesOf p.id) client } : AppState).getClient id =
      some client' ∧ bytesOf client'.keyPrefix = key
  rw [Bucket.get_put, clients]
  by_cases mine : id = p.id
  · rw [if_pos mine, mine]
    constructor
    · intro found
      refine ⟨client, rfl, ?_⟩
      split at found
      · rename_i equal
        rw [same, equal]
      · obtain ⟨other, stored, _⟩ := (indexed key p.id).mp found
        cases absent.symm.trans stored
    · rintro ⟨_, ⟨⟩, rfl⟩
      rw [if_pos (congrArg bytesOf same)]
  · rw [if_neg mine, ← indexed key id]
    by_cases equal : key = bytesOf p.keyPrefix
    · rw [if_pos equal, equal]
      refine iff_of_false (fun found => mine (Option.some.inj found).symm) ?_
      intro found
      cases (show app.clientPrefix.get (bytesOf p.keyPrefix) = none from free).symm.trans found
    · rw [if_neg equal]

theorem indexed_revoked {p : RevokeClientPayload} {old client : Client}
    {audit : Bucket Nat AuditEvent} (indexed : Indexed app) (found : app.getClient p.id = some old)
    (own : old.id = p.id) (same : client.keyPrefix = old.keyPrefix) :
    Indexed { app with clients := app.clients.put (bytesOf old.id) client, audit } := by
  intro key id
  have clients := getClient_put app client old.id id
  change app.clientPrefix.get key = some id ↔
    ∃ client', ({ app with clients := app.clients.put (bytesOf old.id) client } : AppState).getClient
      id = some client' ∧ bytesOf client'.keyPrefix = key
  rw [indexed key id, clients]
  by_cases mine : id = old.id
  · rw [if_pos mine, mine, own, found]
    simp [same]
  · rw [if_neg mine]

theorem indexed_effect (keyed : Keyed app) (indexed : Indexed app)
    (effect : Effect lib ctx cmd app result after) : Indexed after := by
  cases effect with
  | createdClient p name typed payload named listed filled absent free existing =>
      exact indexed_created indexed absent free rfl
  | revokedClient p old typed payload found active =>
      exact indexed_revoked indexed found (keyed_getClient keyed found).1 rfl
  | _ => exact indexed

theorem indexed_finish (state : Nat × AppState) (commands : List (ApplyContext × Command))
    (keyed : Keyed state.2) (indexed : Indexed state.2) :
    Indexed (finish lib state commands).2 := by
  suffices kept : Keyed (finish lib state commands).2 ∧ Indexed (finish lib state commands).2 from
    kept.2
  refine finish_keeps (fun app => Keyed app ∧ Indexed app) state ?_ ⟨keyed, indexed⟩
  rintro command member app result after ⟨keyed, indexed⟩ effect
  exact ⟨keyed_effect keyed effect, indexed_effect keyed indexed effect⟩

end Index

section Accepting

variable {hmac : Bytes → Bytes → Bytes} {pepper rawKey keyPrefix : Bytes} {app : AppState}

theorem authenticate_parsed (parsed : parseKeyPrefix rawKey = .ok keyPrefix) :
    APIKeyAuthenticator.authenticate hmac ⟨pepper, storeClients app⟩ rawKey =
      match (app.clientPrefix.get keyPrefix).bind app.getClient with
      | none => .error .invalidAPIKey
      | some client =>
          if client.keyDigest = hmac pepper rawKey ∧ client.active = true then .ok client
          else .error .invalidAPIKey := by
  unfold APIKeyAuthenticator.authenticate
  rw [parsed]
  simp only [bind, Except.bind, Except.mapError, storeClients, APIKeyAuthenticator.digest]
  cases app.clientPrefix.get keyPrefix with
  | none => rfl
  | some id =>
      simp only [Option.bind_some]
      cases app.getClient id with
      | none => rfl
      | some client =>
          by_cases same : client.keyDigest = hmac pepper rawKey
          · cases active : client.active <;> simp [same, active]
          · simp [same]

theorem authenticate_stored {id : String} {client : Client} (indexed : Indexed app)
    (stored : app.getClient id = some client)
    (parsed : parseKeyPrefix rawKey = .ok (bytesOf client.keyPrefix)) :
    APIKeyAuthenticator.authenticate hmac ⟨pepper, storeClients app⟩ rawKey =
      if client.keyDigest = hmac pepper rawKey ∧ client.active = true then .ok client
      else .error .invalidAPIKey := by
  have mapped := (indexed (bytesOf client.keyPrefix) id).mpr ⟨client, stored, rfl⟩
  rw [authenticate_parsed parsed, mapped, Option.bind_some, stored]

theorem authenticate_ok_iff (keyed : Keyed app) (indexed : Indexed app) (client : Client) :
    APIKeyAuthenticator.authenticate hmac ⟨pepper, storeClients app⟩ rawKey = .ok client ↔
      ∃ keyPrefix secret, rawKey = bytesOf "qlk_" ++ (keyPrefix ++ bytesOf "_" ++ secret) ∧
        keyPrefix.length = 8 ∧ secret ≠ [] ∧ app.getClient client.id = some client ∧
        client.active = true ∧ bytesOf client.keyPrefix = keyPrefix ∧
        client.keyDigest = hmac pepper rawKey := by
  constructor
  · intro accepted
    obtain ⟨keyPrefix, parsed, _⟩ := bind_ok accepted
    rw [authenticate_parsed parsed] at accepted
    obtain ⟨secret, shape, length, filled⟩ := (parseKeyPrefix_eq_ok_iff _ _).mp parsed
    refine ⟨keyPrefix, secret, shape, length, filled, ?_⟩
    split at accepted
    · contradiction
    · rename_i other looked
      split at accepted
      · rename_i good
        cases accepted
        obtain ⟨id, mapped, stored⟩ := Option.bind_eq_some_iff.mp looked
        obtain ⟨same, again, named⟩ := (indexed keyPrefix id).mp mapped
        cases stored.symm.trans again
        rw [(keyed_getClient keyed stored).1]
        exact ⟨stored, good.2, named, good.1⟩
      · contradiction
  · rintro ⟨keyPrefix, secret, shape, length, filled, stored, active, named, digest⟩
    have parsed := (parseKeyPrefix_eq_ok_iff rawKey keyPrefix).mpr ⟨secret, shape, length, filled⟩
    rw [← named] at parsed
    rw [authenticate_stored indexed stored parsed, if_pos ⟨digest, active⟩]

theorem authenticate_error {error : AuthError}
    (failed : APIKeyAuthenticator.authenticate hmac ⟨pepper, storeClients app⟩ rawKey =
      .error error) : error = .invalidAPIKey := by
  cases parsed : parseKeyPrefix rawKey with
  | error other =>
      rw [APIKeyAuthenticator.authenticate, parsed] at failed
      cases failed
      exact parseKeyPrefix_error parsed
  | ok keyPrefix =>
      rw [authenticate_parsed parsed] at failed
      split at failed
      · cases failed
        rfl
      · split at failed
        · contradiction
        · cases failed
          rfl

end Accepting

/-- The step revoked the client, or found it revoked. -/
def revokes (lib : Stdlib) (id : String) (step : Step) : Bool :=
  step.cmd.type = .revokeClient ∧ step.result.outcome = .applied ∧
    lib.revokeClient step.cmd.payload = some ⟨id⟩

/-- The client is stored as it was or, once it was revoked, inactive under its prefix. -/
def Held (id : String) (client : Client) (gone : Bool) (app : AppState) : Prop :=
  if gone then
    ∃ later, app.getClient id = some later ∧ later.active = false ∧
      later.keyPrefix = client.keyPrefix
  else app.getClient id = some client

section Revoking

variable {lib : Stdlib} {ctx : ApplyContext} {cmd : Command} {app after : AppState}
  {result : Result} {id : String} {client : Client}

theorem client_effect (keyed : Keyed app) (effect : Effect lib ctx cmd app result after)
    (before next : Nat × AppState) (stored : app.getClient id = some client) :
    Held id client (revokes lib id ⟨ctx, cmd, before, result, next⟩) after := by
  unfold Held
  cases effect with
  | rejected code msg =>
      rw [if_neg (by simp [revokes, rejection])]
      exact stored
  | createdClient p name typed payload named listed filled absent free existing =>
      have clients := getClient_put app (p.client name cmd.timestampMS) p.id id
      rw [if_neg (by rintro rfl; cases absent.symm.trans stored), stored] at clients
      rw [if_neg (by simp [revokes, typed])]
      exact clients
  | revokedAgain p old typed payload found inactive =>
      by_cases mine : p = ⟨id⟩
      · subst mine
        cases found.symm.trans stored
        rw [if_pos (by simp [revokes, typed, payload])]
        exact ⟨client, stored, inactive, rfl⟩
      · rw [if_neg (by simp [revokes, typed, payload, mine])]
        exact stored
  | revokedClient p old typed payload found active =>
      have clients := getClient_put app (old.revoked cmd.timestampMS) old.id id
      have own := (keyed_getClient keyed found).1
      by_cases mine : p = ⟨id⟩
      · subst mine
        cases found.symm.trans stored
        rw [if_pos own.symm] at clients
        rw [if_pos (by simp [revokes, typed, payload])]
        exact ⟨_, clients, rfl, rfl⟩
      · have other : id ≠ old.id := fun equal => mine (by rw [equal, own])
        rw [if_neg other, stored] at clients
        rw [if_neg (by simp [revokes, typed, payload, mine])]
        exact clients
  | createdPolicy p name typed =>
      rw [if_neg (by simp [revokes, typed])]
      exact stored
  | updatedPolicy p old name visited tokenBuckets typed =>
      rw [if_neg (by simp [revokes, typed])]
      exact stored
  | switchedPolicy p old typed =>
      rw [if_neg (by simp [revokes, typed])]
      exact stored
  | replayed p prior typed =>
      rw [if_neg (by simp [revokes, typed])]
      exact stored
  | charged p policy bucket settled allowed retryAfter tokenBuckets idempotency typed =>
      rw [if_neg (by simp [revokes, typed])]
      exact stored
  | pruned p typed =>
      rw [if_neg (by simp [revokes, typed])]
      exact stored

theorem held_effect {gone : Bool} (keyed : Keyed app) (effect : Effect lib ctx cmd app result after)
    (before next : Nat × AppState) (held : Held id client gone app) :
    Held id client (gone || revokes lib id ⟨ctx, cmd, before, result, next⟩) after := by
  cases gone with
  | false => exact client_effect keyed effect before next held
  | true =>
      obtain ⟨later, stored, inactive, same⟩ := held
      have kept := client_effect keyed effect before next stored
      rw [Held] at kept
      split at kept
      · obtain ⟨last, found, stopped, equal⟩ := kept
        exact ⟨last, found, stopped, equal.trans same⟩
      · exact ⟨later, kept, inactive, same⟩

theorem held_history (state : Nat × AppState) (commands : List (ApplyContext × Command))
    (keyed : Keyed state.2) (stored : state.2.getClient id = some client) :
    Held id client ((history lib state commands).any (revokes lib id))
      (finish lib state commands).2 := by
  suffices kept : Keyed (finish lib state commands).2 ∧
      Held id client ((history lib state commands).any (revokes lib id))
        (finish lib state commands).2 from kept.2
  refine history_keeps (fun past state => Keyed state.2 ∧
    Held id client (past.any (revokes lib id)) state.2) state [] ?_ ⟨keyed, stored⟩
  rintro command member past before result after ⟨keyed, held⟩ ran
  obtain ⟨_, effect⟩ := apply_effect ran
  refine ⟨keyed_effect keyed effect, ?_⟩
  rw [List.any_append, List.any_cons, List.any_nil, Bool.or_false]
  exact held_effect keyed effect before after held

theorem createClient_applied {p : CreateClientPayload} (typed : cmd.type = .createClient)
    (payload : lib.createClient cmd.payload = some p)
    (effect : Effect lib ctx cmd app result after) (applied : result.outcome = .applied) :
    ∃ client, result.client = some client ∧ after.getClient p.id = some client ∧
      client.id = p.id ∧ client.keyPrefix = p.keyPrefix ∧ client.keyDigest = p.keyDigest ∧
      client.active = true := by
  cases effect with
  | rejected code msg => cases applied
  | createdClient q name _ again =>
      cases payload.symm.trans again
      have clients := getClient_put app (p.client name cmd.timestampMS) p.id p.id
      rw [if_pos rfl] at clients
      exact ⟨_, rfl, clients, rfl, rfl, rfl, rfl⟩
  | createdPolicy q name other => cases typed.symm.trans other
  | updatedPolicy q old name visited tokenBuckets other => cases typed.symm.trans other
  | switchedPolicy q old other => cases typed.symm.trans other
  | revokedAgain q old other => cases typed.symm.trans other
  | revokedClient q old other => cases typed.symm.trans other
  | replayed q prior other => cases typed.symm.trans other
  | charged q policy bucket settled allowed retryAfter tokenBuckets idempotency other =>
      cases typed.symm.trans other
  | pruned q other => cases typed.symm.trans other

end Revoking

/-- In every store that commands reach, the index maps a prefix to an id exactly when that
client is stored with the prefix; a key is accepted for a client exactly when it parses and
the client is stored and active with its prefix and its digest, and is invalid otherwise. A
generated key that an applied command stored is accepted for its client until the client is
revoked, and never after. -/
theorem api_key_lookup (lib : Stdlib) (hmac : Bytes → Bytes → Bytes) (pepper : Bytes)
    (commands : List (ApplyContext × Command)) (state : Nat × AppState)
    (reached : finish lib (0, AppState.migrated) commands = state) :
    (∀ key id, state.2.clientPrefix.get key = some id ↔
      ∃ client, state.2.getClient id = some client ∧ bytesOf client.keyPrefix = key) ∧
    (∀ rawKey,
      (∀ client, APIKeyAuthenticator.authenticate hmac ⟨pepper, storeClients state.2⟩ rawKey =
          .ok client ↔
        ∃ keyPrefix secret, rawKey = bytesOf "qlk_" ++ (keyPrefix ++ bytesOf "_" ++ secret) ∧
          keyPrefix.length = 8 ∧ secret ≠ [] ∧ state.2.getClient client.id = some client ∧
          client.active = true ∧ bytesOf client.keyPrefix = keyPrefix ∧
          client.keyDigest = hmac pepper rawKey) ∧
      ∀ error, APIKeyAuthenticator.authenticate hmac ⟨pepper, storeClients state.2⟩ rawKey =
        .error error → error = .invalidAPIKey) ∧
    ∀ (ctx : ApplyContext) (cmd : Command) (p : CreateClientPayload) (result : Result)
      (next : Nat × AppState) (pb sb : Bytes) (later : List (ApplyContext × Command)),
      cmd.type = .createClient → lib.createClient cmd.payload = some p →
      apply lib ctx cmd state = .ok (result, next) → result.outcome = .applied →
      pb.length = 5 → sb.length = 32 → p.keyPrefix = (generateAPIKey pb sb).2 →
      p.keyDigest = hmac pepper (bytesOf (generateAPIKey pb sb).1) →
      ∃ client, result.client = some client ∧ client.id = p.id ∧
        APIKeyAuthenticator.authenticate hmac ⟨pepper, storeClients (finish lib next later).2⟩
            (bytesOf (generateAPIKey pb sb).1) =
          if (history lib next later).any (revokes lib p.id) then .error .invalidAPIKey
          else .ok client := by
  have keyed : Keyed state.2 := reached ▸ keyed_finish _ commands keyed_migrated
  have indexed : Indexed state.2 :=
    reached ▸ indexed_finish _ commands keyed_migrated indexed_migrated
  refine ⟨indexed, fun rawKey => ⟨authenticate_ok_iff keyed indexed, fun _ => authenticate_error⟩, ?_⟩
  intro ctx cmd p result next pb sb later typed payload ran applied five more named digest
  obtain ⟨_, effect⟩ := apply_effect ran
  obtain ⟨client, shown, stored, own, prefixed, matched, active⟩ :=
    createClient_applied typed payload effect applied
  have keyedNext := keyed_effect keyed effect
  have indexedLast : Indexed (finish lib next later).2 :=
    indexed_finish _ later keyedNext (indexed_effect keyed indexed effect)
  have held : Held p.id client ((history lib next later).any (revokes lib p.id))
      (finish lib next later).2 := held_history next later keyedNext stored
  have parsed := parse_generateAPIKey five more
  rw [← named, ← prefixed] at parsed
  refine ⟨client, shown, own, ?_⟩
  cases gone : (history lib next later).any (revokes lib p.id) with
  | true =>
      rw [gone] at held
      obtain ⟨last, found, inactive, same⟩ := held
      rw [← same] at parsed
      rw [authenticate_stored indexedLast found parsed, inactive]
      simp
  | false =>
      rw [gone] at held
      rw [authenticate_stored indexedLast held parsed, if_pos ⟨matched.trans digest, active⟩]
      simp

section Sample

def sampleKey : String × String := generateAPIKey [1, 2, 3, 4, 5] (List.replicate 32 255)

/-- The sample format, with a client of that key. A digest is the pepper and the key. -/
def keyLib : Stdlib :=
  { sampleLib with
    createClient := fun _ =>
      some ⟨"client-a", "Client A", sampleKey.2, [9] ++ bytesOf sampleKey.1, ["*"]⟩ }

def createKey : Command := ⟨1, "", .createClient, 0, []⟩

def revokeKey : List (ApplyContext × Command) := [(⟨2, 1⟩, ⟨1, "", .revokeClient, 1000, []⟩)]

theorem api_key_lookup_sample : ∃ client next,
    (apply keyLib ⟨1, 1⟩ createKey (0, AppState.migrated)).toOption.map Prod.snd = some next ∧
      client.id = "client-a" ∧
      APIKeyAuthenticator.authenticate (· ++ ·) ⟨[9], storeClients next.2⟩ (bytesOf sampleKey.1) =
        .ok client ∧
      APIKeyAuthenticator.authenticate (· ++ ·)
        ⟨[9], storeClients (finish keyLib next revokeKey).2⟩ (bytesOf sampleKey.1) =
        .error .invalidAPIKey := by
  have seen : (apply keyLib ⟨1, 1⟩ createKey (0, AppState.migrated)).toOption.map (fun answer =>
      (answer.1.outcome, (history keyLib answer.2 revokeKey).any (revokes keyLib "client-a"))) =
      some (.applied, true) := by decide +kernel
  obtain ⟨⟨result, next⟩, ran, facts⟩ := toOption_ok seen
  obtain ⟨applied, gone⟩ := Prod.mk.inj facts
  have answers := fun later => (api_key_lookup keyLib (· ++ ·) [9] [] _ rfl).2.2 ⟨1, 1⟩ createKey _
    result next [1, 2, 3, 4, 5] (List.replicate 32 255) later rfl rfl ran applied rfl (by simp) rfl rfl
  obtain ⟨client, shown, own, accepted⟩ := answers []
  obtain ⟨_, _, _, refused⟩ := answers revokeKey
  refine ⟨client, next, by rw [ran]; rfl, own, accepted, refused.trans (if_pos gone)⟩

end Sample

end QuorumLimiter.Auth
