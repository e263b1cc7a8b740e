import Mathlib.Data.List.Sort
import Mathlib.Data.String.Basic
import QuorumLimiter.Lib.Trimming
import QuorumLimiter.Limiter.Validation
import QuorumLimiter.Storage.Encoding

/-!
The peers of a node, read from one setting and handed to the HTTP transport. What
the loop of `parsePeers` accepts does not depend on the order of the entries, and
the peers are sorted at the end. Two URLs count as the same only if they are equal,
while the transport trims slashes off their ends.
-/

namespace QuorumLimiter.NodeConfig

open Limiter Trimming

structure URL where
  scheme : String
  host : String
  deriving DecidableEq, Repr

/-- The functions of the standard library that are taken as given. Durations are
nanoseconds; `quote` is the verb `%q`. -/
structure Library where
  parseDuration : String → Option Int64
  durationText : Int64 → String
  parseURL : String → Option URL
  decodeBase64 : String → Option Bytes
  toLower : String → String
  quote : String → String

@[ext]
structure Peer where
  id : String
  url : String
  deriving DecidableEq, Repr

section Reading

def split (raw : String) : List String := (raw.toList.splitOn ',').map String.ofList

/-- `strings.Cut` at the first `=`. -/
def cut (text : String) : String × String × Bool :=
  (String.ofList (text.toList.takeWhile (· ≠ '=')),
    String.ofList ((text.toList.dropWhile (· ≠ '=')).drop 1), '=' ∈ text.toList)

inductive Part
  | blank
  | malformed
  | peer (found : Peer)
  deriving DecidableEq, Repr

def Part.found : Part → Option Peer
  | .peer found => some found
  | _ => none

def readPart (part : String) : Part :=
  if part = "" then .blank
  else
    let (before, after, ok) := cut part
    let id := trimSpace before
    let u := trimSpace after
    if !ok ∨ id = "" ∨ u = "" then .malformed else .peer ⟨id, u⟩

variable (lib : Library)

def Library.absolute (raw : String) : Bool :=
  match lib.parseURL raw with
  | some u => u.scheme ≠ "" ∧ u.host ≠ ""
  | none => false

/-- One round of the loop. The two maps of what was seen hold the ids and the URLs of
the peers so far. -/
def addPeer (peers : List Peer) (part : String) : Except String (List Peer) :=
  match readPart part with
  | .blank => .ok peers
  | .malformed => .error ("QL_PEERS entry " ++ lib.quote part ++ " must be nodeID=URL")
  | .peer found =>
      if found.id ∈ peers.map Peer.id then
        .error ("QL_PEERS has duplicate node ID " ++ lib.quote found.id)
      else if found.url ∈ peers.map Peer.url then
        .error ("QL_PEERS has duplicate URL " ++ lib.quote found.url)
      else if !lib.absolute found.url then
        .error ("QL_PEERS node " ++ lib.quote found.id ++ " has invalid URL " ++
          lib.quote found.url)
      else .ok (peers ++ [found])

def Peer.Before (p q : Peer) : Prop := p.id ≤ q.id

instance : DecidableRel Peer.Before := fun p q => inferInstanceAs (Decidable (p.id ≤ q.id))

instance : Std.Total Peer.Before := ⟨fun p q => le_total p.id q.id⟩

instance : IsTrans Peer Peer.Before := ⟨fun _ _ _ => le_trans⟩

def entries (raw : String) : List String := (split raw).map trimSpace

def parsePeers (raw : String) : Except String (List Peer) :=
  if raw = "" then .error "QL_PEERS is required"
  else ((entries raw).foldlM (addPeer lib) []).map (List.insertionSort Peer.Before)

def containsPeer (peers : List Peer) (id : String) : Bool := peers.any (·.id = id)

end Reading

section Accepting

variable (lib : Library)

/-- The peers among the entries, in the order they are listed. -/
def listed (parts : List String) : List Peer := parts.filterMap fun part => (readPart part).found

/-- What the loop asks of the entries. -/
structure Accepts (parts : List String) : Prop where
  wellFormed : ∀ part ∈ parts, readPart part ≠ .malformed
  absolute : ∀ peer ∈ listed parts, lib.absolute peer.url = true
  ids : ((listed parts).map Peer.id).Nodup
  urls : ((listed parts).map Peer.url).Nodup

theorem repeated_not_nodup {α β : Type} (key : α → β) (start more : List α) (found : α)
    (known : key found ∈ start.map key) : ¬ ((start ++ found :: more).map key).Nodup := by
  intro distinct
  rw [List.map_append, List.map_cons] at distinct
  exact (List.disjoint_of_nodup_append distinct) known List.mem_cons_self

theorem fresh_nodup {α β : Type} (key : α → β) {start : List α} (found : α)
    (distinct : (start.map key).Nodup) (fresh : key found ∉ start.map key) :
    ((start ++ [found]).map key).Nodup := by
  rw [List.map_append, List.map_singleton, ← List.concat_eq_append]
  exact distinct.concat fresh

theorem addPeers_iff (parts : List String) (start peers : List Peer)
    (ids : (start.map Peer.id).Nodup) (urls : (start.map Peer.url).Nodup) :
    parts.foldlM (addPeer lib) start = .ok peers ↔
      (∀ part ∈ parts, readPart part ≠ .malformed) ∧
      (∀ peer ∈ listed parts, lib.absolute peer.url = true) ∧
      ((start ++ listed parts).map Peer.id).Nodup ∧
      ((start ++ listed parts).map Peer.url).Nodup ∧ peers = start ++ listed parts := by
  induction parts generalizing start with
  | nil =>
      have nothing : listed [] = [] := rfl
      rw [nothing, List.append_nil]
      constructor
      · rintro ⟨⟩
        exact ⟨by simp, by simp, ids, urls, rfl⟩
      · rintro ⟨_, _, _, _, rfl⟩
        rfl
  | cons part rest ih =>
      rw [List.foldlM_cons, addPeer, List.forall_mem_cons]
      cases read : readPart part with
      | blank =>
          have skipped : listed (part :: rest) = listed rest := by simp [listed, read, Part.found]
          rw [skipped]
          refine (ih start ids urls).trans ?_
          simp
      | malformed =>
          constructor
          · rintro ⟨⟩
          · rintro ⟨⟨formed, _⟩, _⟩
            exact absurd rfl formed
      | peer found =>
          have taken : listed (part :: rest) = found :: listed rest := by
            simp [listed, read, Part.found]
          rw [taken, List.forall_mem_cons]
          dsimp only
          by_cases sameID : found.id ∈ start.map Peer.id
          · rw [if_pos sameID]
            constructor
            · rintro ⟨⟩
            · rintro ⟨_, _, distinct, _⟩
              exact absurd distinct (repeated_not_nodup Peer.id start _ found sameID)
          rw [if_neg sameID]
          by_cases sameURL : found.url ∈ start.map Peer.url
          · rw [if_pos sameURL]
            constructor
            · rintro ⟨⟩
            · rintro ⟨_, _, _, distinct, _⟩
              exact absurd distinct (repeated_not_nodup Peer.url start _ found sameURL)
          rw [if_neg sameURL]
          cases absolute : lib.absolute found.url with
          | false =>
              constructor
              · rintro ⟨⟩
              · rintro ⟨_, ⟨⟨⟩, _⟩, _⟩
          | true =>
              have grown : start ++ found :: listed rest = start ++ [found] ++ listed rest := by
                simp
              rw [grown]
              refine (ih (start ++ [found]) ?_ ?_).trans ?_
              · exact fresh_nodup Peer.id found ids sameID
              · exact fresh_nodup Peer.url found urls sameURL
              · simp

theorem accepts_iff (parts : List String) (peers : List Peer) :
    parts.foldlM (addPeer lib) [] = .ok peers ↔ Accepts lib parts ∧ peers = listed parts := by
  rw [addPeers_iff lib parts [] peers List.nodup_nil List.nodup_nil]
  constructor
  · rintro ⟨wellFormed, absolute, ids, urls, same⟩
    exact ⟨⟨wellFormed, absolute, ids, urls⟩, same⟩
  · rintro ⟨⟨wellFormed, absolute, ids, urls⟩, same⟩
    exact ⟨wellFormed, absolute, ids, urls, same⟩

theorem listed_perm {parts others : List String} (permuted : parts.Perm others) :
    (listed parts).Perm (listed others) :=
  permuted.filterMap _

theorem accepts_perm {lib : Library} {parts others : List String} (permuted : parts.Perm others)
    (accepts : Accepts lib parts) : Accepts lib others := by
  have peers := listed_perm permuted
  constructor
  · exact fun part member => accepts.wellFormed part (permuted.mem_iff.mpr member)
  · exact fun peer member => accepts.absolute peer (peers.mem_iff.mpr member)
  · exact (peers.map Peer.id).nodup_iff.mp accepts.ids
  · exact (peers.map Peer.url).nodup_iff.mp accepts.urls

theorem sort_perm {peers others : List Peer} (permuted : peers.Perm others)
    (distinct : (peers.map Peer.id).Nodup) :
    peers.insertionSort Peer.Before = others.insertionSort Peer.Before := by
  have first := List.perm_insertionSort Peer.Before peers
  have second := List.perm_insertionSort Peer.Before others
  apply List.Perm.eq_of_pairwise _ (List.pairwise_insertionSort _ _)
    (List.pairwise_insertionSort _ _) (first.trans (permuted.trans second.symm))
  intro p q left right below above
  apply List.inj_on_of_nodup_map distinct (first.mem_iff.mp left)
    (permuted.mem_iff.mpr (second.mem_iff.mp right))
  exact le_antisymm below above

theorem parsePeers_iff (raw : String) (peers : List Peer) :
    parsePeers lib raw = .ok peers ↔ raw ≠ "" ∧ Accepts lib (entries raw) ∧
      peers = (listed (entries raw)).insertionSort Peer.Before := by
  unfold parsePeers
  by_cases empty : raw = ""
  · rw [if_pos empty]
    constructor
    · rintro ⟨⟩
    · exact fun ⟨present, _⟩ => absurd empty present
  rw [if_neg empty]
  cases found : (entries raw).foldlM (addPeer lib) [] with
  | error problem =>
      constructor
      · rintro ⟨⟩
      · rintro ⟨_, accepts, _⟩
        have passes := (accepts_iff lib (entries raw) _).mpr ⟨accepts, rfl⟩
        rw [found] at passes
        contradiction
  | ok read =>
      obtain ⟨accepts, rfl⟩ := (accepts_iff lib (entries raw) read).mp found
      constructor
      · rintro ⟨⟩
        exact ⟨empty, accepts, rfl⟩
      · rintro ⟨_, _, rfl⟩
        rfl

theorem entries_trimSpace (raw : String) : entries (trimSpace raw) = entries raw := by
  have comma : isSpace ',' = false := by decide
  have parts := congrArg (List.map String.ofList) (splitOn_trim isSpace ',' comma raw.toList)
  have each (items : List (List Char)) : (items.map String.ofList).map trimSpace =
      (items.map (trim isSpace)).map String.ofList := by
    rw [List.map_map, List.map_map]
    apply List.map_congr_left
    intro item _
    rw [Function.comp, trimSpace, String.toList_ofList]
    rfl
  rw [entries, entries, split, split, each, each, ← parts, trimSpace, String.toList_ofList]
  rfl

end Accepting

section Transport

def putURL (urls : String → Option String) (peer : Peer) : String → Option String :=
  Function.update urls peer.id (some peer.url)

def peerURLs (peers : List Peer) : String → Option String := peers.foldl putURL fun _ => none

/-- The base URL `NewHTTPTransport` keeps for each node id. -/
def newHTTPTransport (peerURLs : String → Option String) : String → Option String :=
  fun id => (peerURLs id).map (trimRight '/')

theorem filled_iff (peers : List Peer) (urls : String → Option String)
    (distinct : (peers.map Peer.id).Nodup) (id url : String) :
    peers.foldl putURL urls id = some url ↔
      ⟨id, url⟩ ∈ peers ∨ id ∉ peers.map Peer.id ∧ urls id = some url := by
  induction peers generalizing urls with
  | nil => simp
  | cons peer rest ih =>
      rw [List.map_cons, List.nodup_cons] at distinct
      rw [List.foldl_cons, ih _ distinct.2, List.mem_cons, List.map_cons, List.mem_cons]
      by_cases same : id = peer.id
      · subst same
        have gone : (⟨peer.id, url⟩ : Peer) ∉ rest :=
          fun member => distinct.1 (List.mem_map.mpr ⟨_, member, rfl⟩)
        simp [putURL, distinct.1, gone, Peer.ext_iff, eq_comm]
      · have other : (⟨id, url⟩ : Peer) ≠ peer := by
          rintro rfl
          exact same rfl
        simp [putURL, same, other]

theorem peerURLs_iff {peers : List Peer} (distinct : (peers.map Peer.id).Nodup) (id url : String) :
    peerURLs peers id = some url ↔ ⟨id, url⟩ ∈ peers := by
  rw [peerURLs, filled_iff peers _ distinct]
  simp

/-- One of two listed URLs is the other with slashes at its end. -/
def SlashTwins (peers : List Peer) : Prop :=
  ∃ p ∈ peers, ∃ q ∈ peers, ∃ count,
    p.url.toList = q.url.toList ++ List.replicate (count + 1) '/'

theorem endpoints_iff {peers : List Peer} (ids : (peers.map Peer.id).Nodup)
    (urls : (peers.map Peer.url).Nodup) :
    (∀ first second base, newHTTPTransport (peerURLs peers) first = some base →
      newHTTPTransport (peerURLs peers) second = some base → first = second) ↔
      ¬ SlashTwins peers := by
  constructor
  · rintro apart ⟨p, listed, q, known, count, longer⟩
    have reaches (peer : Peer) (member : peer ∈ peers) :
        newHTTPTransport (peerURLs peers) peer.id = some (trimRight '/' peer.url) := by
      rw [newHTTPTransport, (peerURLs_iff ids peer.id peer.url).mpr member, Option.map_some]
    have trimmed : trimRight '/' p.url = trimRight '/' q.url := by
      rw [trimRight, longer, rdropWhile_replicate, trimRight]
    have same := apart p.id q.id _ (reaches p listed) (by rw [reaches q known, trimmed])
    rw [List.inj_on_of_nodup_map ids listed known same] at longer
    have lengths := congrArg List.length longer
    simp at lengths
  · intro alone first second base left right
    obtain ⟨u, found, rfl⟩ := Option.map_eq_some_iff.mp left
    obtain ⟨v, present, same⟩ := Option.map_eq_some_iff.mp right
    have listed := (peerURLs_iff ids first u).mp found
    have known := (peerURLs_iff ids second v).mp present
    by_cases equal : u = v
    · have peer : (⟨first, u⟩ : Peer) = ⟨second, v⟩ :=
        List.inj_on_of_nodup_map urls listed known equal
      exact congrArg Peer.id peer
    · have ends : u.toList.rdropWhile (· = '/') = v.toList.rdropWhile (· = '/') :=
        (String.ofList_injective same).symm
      have differs : u.toList ≠ v.toList := fun texts => equal (String.toList_inj.mp texts)
      obtain ⟨count, longer | longer⟩ := extends_of_rdropWhile '/' ends differs
      · exact absurd ⟨_, listed, _, known, count, longer⟩ alone
      · exact absurd ⟨_, known, _, listed, count, longer⟩ alone

end Transport

end QuorumLimiter.NodeConfig
