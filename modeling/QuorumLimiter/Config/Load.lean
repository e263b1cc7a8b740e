import QuorumLimiter.Config.Peers
import QuorumLimiter.Lib.Checked
import QuorumLimiter.Lib.Fixed64
import QuorumLimiter.Lib.JsonDecode

/-!
Loading the configuration of a node. `Load` reads every setting, collects what is
wrong with them, and returns a configuration if nothing is. Two of its checks look
at less than they stand for: the URLs of the peers are compared before the
transport trims them, and three heartbeat intervals are multiplied out in machine
arithmetic.
-/

namespace QuorumLimiter.NodeConfig

open Checked Limiter

abbrev LookupFunc := String → String × Bool

inductive Level
  | debug
  | info
  | warn
  | error
  deriving DecidableEq, Repr

structure Config where
  nodeID : String
  clusterID : String
  bindAddr : String
  advertiseURL : String
  peers : List Peer
  dataPath : String
  electionTimeoutMin : Int64
  electionTimeoutMax : Int64
  heartbeatInterval : Int64
  proposalTimeout : Int64
  publicBaseURL : String
  production : Bool
  logLevel : Level
  revealSubjects : Bool
  clusterToken : String
  adminToken : String
  sessionKey : Bytes
  apiKeyPepper : Bytes
  deriving DecidableEq, Repr

section Loading

def wantPeers : Nat := 3

def minTokenLen : Nat := 16

def minKeyBytes : Nat := 32

def heartbeatsPerElection : Int64 := 3

def parseBool (text : String) : Option Bool :=
  if text ∈ ["1", "t", "T", "true", "TRUE", "True"] then some true
  else if text ∈ ["0", "f", "F", "false", "FALSE", "False"] then some false
  else none

variable (lib : Library) (get : String → String)

def requireStr (key : String) (minLen : Nat) : Checked String String :=
  ⟨get key,
    if get key = "" then [key ++ " is required"]
    else if (get key).utf8ByteSize < minLen then
      [key ++ " must be at least " ++ toString minLen ++ " characters"]
    else []⟩

def requireDur (key : String) : Checked String Int64 :=
  if get key = "" then ⟨0, [key ++ " is required"]⟩
  else
    match lib.parseDuration (get key) with
    | none => ⟨0, [key ++ " is not a valid duration (e.g. 800ms, 3s)"]⟩
    | some d => ⟨d, if d ≤ 0 then [key ++ " must be positive"] else []⟩

def requireBool (key : String) : Checked String Bool :=
  if get key = "" then ⟨false, [key ++ " is required"]⟩
  else
    match parseBool (get key) with
    | none => ⟨false, [key ++ " must be true or false"]⟩
    | some b => ⟨b, []⟩

def decodeSecret (key : String) : Checked String Bytes :=
  if get key = "" then ⟨[], [key ++ " is required"]⟩
  else
    match lib.decodeBase64 (get key) with
    | none => ⟨[], [key ++ " must be valid base64"]⟩
    | some raw =>
        ⟨raw, if raw.length < minKeyBytes then
          [key ++ " must decode to at least " ++ toString minKeyBytes ++ " bytes"] else []⟩

def required (key : String) : Option String :=
  if get key = "" then some (key ++ " is required") else none

def validateURL (key raw : String) : Option String :=
  if raw = "" then some (key ++ " is required")
  else if !lib.absolute raw then some (key ++ " must be an absolute URL like http://host:port")
  else none

def checkPeers (nodeID : String) : Checked String (List Peer) :=
  match parsePeers lib (get "QL_PEERS") with
  | .error problem => ⟨[], [problem]⟩
  | .ok peers => do
      report <| if peers.length ≠ wantPeers then
          some ("QL_PEERS must list exactly " ++ toString wantPeers ++ " nodes, got " ++
            toString peers.length)
        else none
      report <| if nodeID ≠ "" ∧ !containsPeer peers nodeID then
          some ("QL_NODE_ID " ++ lib.quote nodeID ++ " must be one of the peers in QL_PEERS")
        else none
      return peers

def checkTimeouts (heartbeat electionMin electionMax : Int64) : Checked String Unit := do
  report <| if (heartbeat > 0 ∧ electionMin > 0) ∧
        electionMin ≤ heartbeatsPerElection * heartbeat then
      some ("QL_ELECTION_TIMEOUT_MIN (" ++ lib.durationText electionMin ++
        ") must be greater than " ++ toString heartbeatsPerElection ++ " heartbeat intervals (" ++
        lib.durationText (heartbeatsPerElection * heartbeat) ++ ")")
    else none
  report <| if (electionMin > 0 ∧ electionMax > 0) ∧ electionMax ≤ electionMin then
      some ("QL_ELECTION_TIMEOUT_MAX (" ++ lib.durationText electionMax ++
        ") must be greater than QL_ELECTION_TIMEOUT_MIN (" ++ lib.durationText electionMin ++ ")")
    else none

def parseLevel (s : String) : Checked String Level :=
  let level := lib.toLower (trimSpace s)
  if level ∈ ["", "info"] then ⟨.info, []⟩
  else if level = "debug" then ⟨.debug, []⟩
  else if level ∈ ["warn", "warning"] then ⟨.warn, []⟩
  else if level = "error" then ⟨.error, []⟩
  else ⟨.info, ["QL_LOG_LEVEL " ++ lib.quote s ++ " must be one of debug, info, warn, error"]⟩

def optionalBool (key : String) : Checked String Bool :=
  if get key = "" then ⟨false, []⟩
  else
    match parseBool (get key) with
    | none => ⟨false, [key ++ " must be true or false"]⟩
    | some b => ⟨b, []⟩

/-- The settings in the order they are read, each with its problems. -/
def checkConfig : Checked String Config := do
  let electionTimeoutMin ← requireDur lib get "QL_ELECTION_TIMEOUT_MIN"
  let electionTimeoutMax ← requireDur lib get "QL_ELECTION_TIMEOUT_MAX"
  let heartbeatInterval ← requireDur lib get "QL_HEARTBEAT_INTERVAL"
  let proposalTimeout ← requireDur lib get "QL_PROPOSAL_TIMEOUT"
  let production ← requireBool get "QL_PRODUCTION"
  let clusterToken ← requireStr get "QL_CLUSTER_TOKEN" minTokenLen
  let adminToken ← requireStr get "QL_ADMIN_TOKEN" minTokenLen
  let sessionKey ← decodeSecret lib get "QL_SESSION_KEY"
  let apiKeyPepper ← decodeSecret lib get "QL_API_KEY_PEPPER"
  report (required get "QL_NODE_ID")
  report (required get "QL_CLUSTER_ID")
  report (required get "QL_BIND_ADDR")
  report (required get "QL_DATA_PATH")
  report (validateURL lib "QL_ADVERTISE_URL" (get "QL_ADVERTISE_URL"))
  report (validateURL lib "QL_PUBLIC_BASE_URL" (get "QL_PUBLIC_BASE_URL"))
  let peers ← checkPeers lib get (get "QL_NODE_ID")
  checkTimeouts lib heartbeatInterval electionTimeoutMin electionTimeoutMax
  let logLevel ← parseLevel lib (get "QL_LOG_LEVEL")
  let revealSubjects ← optionalBool get "QL_REVEAL_SUBJECTS"
  return {
    nodeID := get "QL_NODE_ID", clusterID := get "QL_CLUSTER_ID"
    bindAddr := get "QL_BIND_ADDR", advertiseURL := get "QL_ADVERTISE_URL"
    peers, dataPath := get "QL_DATA_PATH"
    electionTimeoutMin, electionTimeoutMax, heartbeatInterval, proposalTimeout
    publicBaseURL := get "QL_PUBLIC_BASE_URL", production, logLevel, revealSubjects
    clusterToken, adminToken, sessionKey, apiKeyPepper }

def setting (lookup : LookupFunc) (key : String) : String := trimSpace (lookup key).1

def load (lookup : LookupFunc) : Except (List String) Config :=
  (checkConfig lib (setting lookup)).toExcept

end Loading

section Passing

variable {lib : Library} {get : String → String}

theorem requireDur_passes {key : String} (fine : (requireDur lib get key).problems = []) :
    lib.parseDuration (get key) = some (requireDur lib get key).value ∧
      0 < (requireDur lib get key).value := by
  unfold requireDur at fine ⊢
  by_cases empty : get key = ""
  · simp [empty] at fine
  rw [if_neg empty] at fine ⊢
  cases parsed : lib.parseDuration (get key) with
  | none => simp [parsed] at fine
  | some d =>
      simp only [parsed, ite_eq_right_iff, List.cons_ne_nil, imp_false] at fine
      exact ⟨rfl, Int64.not_le.mp fine⟩

theorem checkPeers_passes {nodeID : String} (named : nodeID ≠ "")
    (fine : (checkPeers lib get nodeID).problems = []) :
    parsePeers lib (get "QL_PEERS") = .ok (checkPeers lib get nodeID).value ∧
      (checkPeers lib get nodeID).value.length = wantPeers ∧
      nodeID ∈ (checkPeers lib get nodeID).value.map Peer.id := by
  unfold checkPeers at fine ⊢
  cases parsed : parsePeers lib (get "QL_PEERS") with
  | error problem => simp [parsed] at fine
  | ok peers =>
      simp only [parsed, bind_problems, List.append_eq_nil_iff, report_problems, ite_eq_right_iff,
        reduceCtorEq, imp_false, not_not, not_and, pure_problems] at fine
      obtain ⟨count, member, _⟩ := fine
      refine ⟨rfl, count, ?_⟩
      have found := member named
      simpa [containsPeer] using found

theorem checkTimeouts_passes {heartbeat electionMin electionMax : Int64} (pulse : 0 < heartbeat)
    (low : 0 < electionMin) (high : 0 < electionMax)
    (fine : (checkTimeouts lib heartbeat electionMin electionMax).problems = []) :
    heartbeatsPerElection * heartbeat < electionMin ∧ electionMin < electionMax := by
  simp only [checkTimeouts, bind_problems, List.append_eq_nil_iff, report_problems,
    ite_eq_right_iff, reduceCtorEq, imp_false, not_and, Int64.not_le] at fine
  exact ⟨fine.1 ⟨pulse, low⟩, fine.2 ⟨low, high⟩⟩

/-- What an accepted environment has passed, as far as the cluster depends on it. -/
structure Passed (lib : Library) (lookup : LookupFunc) (cfg : Config) : Prop where
  peers : parsePeers lib (setting lookup "QL_PEERS") = .ok cfg.peers
  three : cfg.peers.length = wantPeers
  member : cfg.nodeID ∈ cfg.peers.map Peer.id
  heartbeat : lib.parseDuration (setting lookup "QL_HEARTBEAT_INTERVAL") =
    some cfg.heartbeatInterval
  pulse : 0 < cfg.heartbeatInterval
  shortest : heartbeatsPerElection * cfg.heartbeatInterval < cfg.electionTimeoutMin
  longest : cfg.electionTimeoutMin < cfg.electionTimeoutMax

theorem load_passed {lookup : LookupFunc} {cfg : Config} (accepted : load lib lookup = .ok cfg) :
    Passed lib lookup cfg := by
  obtain ⟨fine, rfl⟩ := (toExcept_ok _ _).mp accepted
  simp only [checkConfig, bind_problems, bind_value, pure_value, List.append_eq_nil_iff,
    report_problems] at fine ⊢
  obtain ⟨low, high, pulse, _, _, _, _, _, _, node, _, _, _, _, _, peers, timeouts, _⟩ := fine
  have named : setting lookup "QL_NODE_ID" ≠ "" := by
    intro empty
    simp [required, empty] at node
  obtain ⟨parsed, three, member⟩ := checkPeers_passes named peers
  have heartbeat := requireDur_passes pulse
  obtain ⟨shortest, longest⟩ := checkTimeouts_passes heartbeat.2 (requireDur_passes low).2
    (requireDur_passes high).2 timeouts
  constructor <;> dsimp only
  · exact parsed
  · exact three
  · exact member
  · exact heartbeat.1
  · exact heartbeat.2
  · exact shortest
  · exact longest

end Passing

section Running

/-- A cluster can run on the configuration. -/
structure Runnable (cfg : Config) : Prop where
  three : cfg.peers.length = 3
  ids : (cfg.peers.map Peer.id).Nodup
  member : cfg.nodeID ∈ cfg.peers.map Peer.id
  endpoints : ∀ first second base, newHTTPTransport (peerURLs cfg.peers) first = some base →
    newHTTPTransport (peerURLs cfg.peers) second = some base → first = second
  pulse : 0 < 3 * cfg.heartbeatInterval.toInt
  shortest : 3 * cfg.heartbeatInterval.toInt < cfg.electionTimeoutMin.toInt
  longest : cfg.electionTimeoutMin.toInt < cfg.electionTimeoutMax.toInt

/-- Listing the same peers in another order gives the same configuration. -/
def OrderFree (lib : Library) (lookup : LookupFunc) (cfg : Config) : Prop :=
  ∀ other : LookupFunc, (∀ key, key ≠ "QL_PEERS" → other key = lookup key) →
    (entries (other "QL_PEERS").1).Perm (entries (lookup "QL_PEERS").1) → load lib other = .ok cfg

variable {lib : Library} {lookup : LookupFunc} {cfg : Config}

theorem parsePeers_order {raw other : String} {peers : List Peer}
    (permuted : (entries other).Perm (entries raw)) (some : peers ≠ [])
    (parsed : parsePeers lib raw = .ok peers) : parsePeers lib other = .ok peers := by
  obtain ⟨_, accepts, sorted⟩ := (parsePeers_iff lib raw peers).mp parsed
  have listing := listed_perm permuted.symm
  refine (parsePeers_iff lib other peers).mpr ⟨?_, accepts_perm permuted.symm accepts, ?_⟩
  · rintro rfl
    have single : entries raw = [""] := List.perm_singleton.mp permuted.symm
    have blank : listed [""] = [] := by simp [listed, readPart, Part.found]
    rw [single, blank] at sorted
    exact some sorted
  · rw [sorted]
    exact sort_perm listing accepts.ids

theorem load_orderFree (accepted : load lib lookup = .ok cfg) : OrderFree lib lookup cfg := by
  intro other agree permuted
  have passed := load_passed accepted
  have same : ∀ key, key ≠ "QL_PEERS" → setting other key = setting lookup key := by
    intro key apart
    rw [setting, setting, agree key apart]
  have parsed : parsePeers lib (setting other "QL_PEERS") =
      parsePeers lib (setting lookup "QL_PEERS") := by
    rw [passed.peers]
    apply parsePeers_order _ _ passed.peers
    · rw [setting, setting, entries_trimSpace, entries_trimSpace]
      exact permuted
    · intro none
      have three := passed.three
      rw [none, wantPeers] at three
      simp at three
  rw [← accepted, load, load, checkConfig, checkConfig]
  simp (disch := decide) only [requireDur, requireBool, requireStr, decodeSecret, required,
    optionalBool, checkPeers, parsed, same]

theorem timing_iff (passed : Passed lib lookup cfg) :
    (0 < 3 * cfg.heartbeatInterval.toInt ∧
        3 * cfg.heartbeatInterval.toInt < cfg.electionTimeoutMin.toInt ∧
        cfg.electionTimeoutMin.toInt < cfg.electionTimeoutMax.toInt) ↔
      3 * cfg.heartbeatInterval.toInt < 2 ^ 63 := by
  have three : heartbeatsPerElection.toInt = 3 := rfl
  have pulse : 0 < cfg.heartbeatInterval.toInt := Int64.lt_iff_toInt_lt.mp passed.pulse
  have longest := Int64.lt_iff_toInt_lt.mp passed.longest
  have bound := cfg.electionTimeoutMin.toInt_lt
  constructor
  · rintro ⟨_, shortest, _⟩
    omega
  · intro fits
    have product : (heartbeatsPerElection * cfg.heartbeatInterval).toInt =
        3 * cfg.heartbeatInterval.toInt := by
      rw [Fixed64.toInt_mul_fits (by rw [three]; omega) (by rw [three]; omega), three]
    have shortest := Int64.lt_iff_toInt_lt.mp passed.shortest
    rw [product] at shortest
    omega

theorem slashTwins_perm {peers others : List Peer} (permuted : peers.Perm others) :
    SlashTwins peers ↔ SlashTwins others := by
  simp only [SlashTwins, permuted.mem_iff]

/-- An accepted environment is one to run on exactly when no listed URL is another one
with slashes at its end and three heartbeat intervals fit in 64 bits. -/
theorem load_runnable_iff (lib : Library) (lookup : LookupFunc) (cfg : Config)
    (accepted : load lib lookup = .ok cfg) :
    Runnable cfg ∧ OrderFree lib lookup cfg ↔
      ¬ SlashTwins (listed (entries (lookup "QL_PEERS").1)) ∧
        ∀ interval, lib.parseDuration (setting lookup "QL_HEARTBEAT_INTERVAL") = some interval →
          3 * interval.toInt < 2 ^ 63 := by
  have passed := load_passed accepted
  have timing := timing_iff passed
  obtain ⟨_, accepts, sorted⟩ := (parsePeers_iff lib _ _).mp passed.peers
  rw [setting, entries_trimSpace] at accepts sorted
  have permuted := List.perm_insertionSort Peer.Before (listed (entries (lookup "QL_PEERS").1))
  rw [← sorted] at permuted
  have ids : (cfg.peers.map Peer.id).Nodup := (permuted.map Peer.id).nodup_iff.mpr accepts.ids
  have urls : (cfg.peers.map Peer.url).Nodup := (permuted.map Peer.url).nodup_iff.mpr accepts.urls
  have apart := endpoints_iff ids urls
  rw [slashTwins_perm permuted] at apart
  constructor
  · rintro ⟨runnable, _⟩
    refine ⟨apart.mp runnable.endpoints, ?_⟩
    intro interval parsed
    rw [passed.heartbeat] at parsed
    cases parsed
    exact timing.mp ⟨runnable.pulse, runnable.shortest, runnable.longest⟩
  · rintro ⟨alone, fits⟩
    obtain ⟨pulse, shortest, longest⟩ := timing.mpr (fits _ passed.heartbeat)
    exact ⟨⟨passed.three, ids, passed.member, apart.mpr alone, pulse, shortest, longest⟩,
      load_orderFree accepted⟩

end Running

section Samples

/-- A library that knows the texts of the samples. -/
def sampleLibrary : Library where
  parseDuration text :=
    [("200ms", 200000000), ("800ms", 800000000), ("1400ms", 1400000000), ("3s", 3000000000),
      ("854016h", 3074457600000000000)].lookup text
  durationText d := toString d ++ "ns"
  parseURL text :=
    if "http://".toList <+: text.toList then
      some ⟨"http", String.ofList (text.toList.drop 7)⟩
    else none
  decodeBase64 text := Json.decodeBase64 text.toList
  toLower := id
  quote text := "\"" ++ text ++ "\""

def sampleEnv (peers heartbeat : String) : LookupFunc := fun key =>
  match [("QL_NODE_ID", "n1"), ("QL_CLUSTER_ID", "local"), ("QL_BIND_ADDR", ":80"),
      ("QL_ADVERTISE_URL", "http://n1"), ("QL_PEERS", peers), ("QL_DATA_PATH", "n1.db"),
      ("QL_CLUSTER_TOKEN", "cluster-token-ab"), ("QL_ADMIN_TOKEN", "admin-token-abcd"),
      ("QL_SESSION_KEY", "AQEBAQEBAQEBAQEBAQEBAQEBAQEBAQEBAQEBAQEBAQE="),
      ("QL_API_KEY_PEPPER", "AgICAgICAgICAgICAgICAgICAgICAgICAgICAgICAgI="),
      ("QL_ELECTION_TIMEOUT_MIN", "800ms"), ("QL_ELECTION_TIMEOUT_MAX", "1400ms"),
      ("QL_HEARTBEAT_INTERVAL", heartbeat), ("QL_PROPOSAL_TIMEOUT", "3s"),
      ("QL_PUBLIC_BASE_URL", "http://n1"), ("QL_PRODUCTION", "false")].lookup key with
  | some value => (value, true)
  | none => ("", false)

def localPeers : String := "n1=http://n1,n2=http://n2,n3=http://n3"

theorem loaded_of_map {β : Type} {lib : Library} {lookup : LookupFunc} (read : Config → β)
    {seen : β} (loaded : (load lib lookup).toOption.map read = some seen) :
    ∃ cfg, load lib lookup = .ok cfg ∧ read cfg = seen := by
  cases result : load lib lookup with
  | error problems => simp [result, Except.toOption] at loaded
  | ok cfg => exact ⟨cfg, rfl, by simpa [result, Except.toOption] using loaded⟩

theorem load_runnable_local : ∃ cfg, load sampleLibrary (sampleEnv localPeers "200ms") = .ok cfg ∧
    Runnable cfg ∧ OrderFree sampleLibrary (sampleEnv localPeers "200ms") cfg := by
  obtain ⟨cfg, accepted, _⟩ := loaded_of_map (fun _ => ()) (by decide +kernel :
    (load sampleLibrary (sampleEnv localPeers "200ms")).toOption.map _ = some ())
  refine ⟨cfg, accepted, (load_runnable_iff _ _ cfg accepted).mpr ⟨?_, ?_⟩⟩
  · rintro ⟨p, left, q, right, count, longer⟩
    have lengths : (listed (entries localPeers)).all (·.url.toList.length = 9) := by
      decide +kernel
    rw [List.all_eq_true] at lengths
    have first := of_decide_eq_true (lengths p left)
    have second := of_decide_eq_true (lengths q right)
    have whole := congrArg List.length longer
    rw [List.length_append, List.length_replicate] at whole
    omega
  · intro interval parsed
    have known : sampleLibrary.parseDuration (setting (sampleEnv localPeers "200ms")
        "QL_HEARTBEAT_INTERVAL") = some 200000000 := by decide +kernel
    rw [known] at parsed
    cases parsed
    decide

/-- Two nodes at one endpoint, and a heartbeat every 97 years, are both accepted. -/
theorem load_accepts_unrunnable :
    (∃ cfg, load sampleLibrary (sampleEnv "n1=http://n1,n2=http://n1/,n3=http://n3" "200ms") =
        .ok cfg ∧
      newHTTPTransport (peerURLs cfg.peers) "n1" = some "http://n1" ∧
      newHTTPTransport (peerURLs cfg.peers) "n2" = some "http://n1") ∧
    ∃ cfg, load sampleLibrary (sampleEnv localPeers "854016h") = .ok cfg ∧
      cfg.electionTimeoutMin.toInt < 3 * cfg.heartbeatInterval.toInt := by
  constructor
  · obtain ⟨cfg, accepted, reached⟩ := loaded_of_map
      (fun cfg => (newHTTPTransport (peerURLs cfg.peers) "n1",
        newHTTPTransport (peerURLs cfg.peers) "n2"))
      (by decide +kernel : (load sampleLibrary
        (sampleEnv "n1=http://n1,n2=http://n1/,n3=http://n3" "200ms")).toOption.map _ =
          some (some "http://n1", some "http://n1"))
    exact ⟨cfg, accepted, Prod.mk.inj reached⟩
  · obtain ⟨cfg, accepted, late⟩ := loaded_of_map
      (fun cfg => decide (cfg.electionTimeoutMin.toInt < 3 * cfg.heartbeatInterval.toInt))
      (by decide +kernel : (load sampleLibrary (sampleEnv localPeers "854016h")).toOption.map _ =
        some true)
    exact ⟨cfg, accepted, of_decide_eq_true late⟩

end Samples

end QuorumLimiter.NodeConfig
