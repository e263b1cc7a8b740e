import QuorumLimiter.Lib.Majority
import QuorumLimiter.Raft.Turns

/-!
Elections, seen through the ballots. Beside a cluster state stands a booth that
remembers every ballot and every winner, and for each candidate the set of voters
behind the bare number `votesGranted`. `Votes` says how the two agree; each turn
is a step of the booth, also when store calls fail.
-/

namespace QuorumLimiter

open Voting

variable {σ ρ : Type}

abbrev Cluster.quorums (c : Cluster σ ρ) : Quorums String := majority c.ids.toFinset

/-- Two vote requests differ in candidate, term or voter. -/
def Call.Apart (left right : Call) : Prop :=
  left.isVote → right.isVote →
    ¬(left.source = right.source ∧ left.term = right.term ∧ left.peer = right.peer)

/-- Ballots and elections are never taken back. -/
def Keeps (b after : Booth String) : Prop :=
  (∀ voter term candidate, b.ballot voter term = some candidate →
    after.ballot voter term = some candidate) ∧
  ∀ term winner, b.elected term = some winner → after.elected term = some winner

theorem keeps_refl (b : Booth String) : Keeps b b := ⟨fun _ _ _ cast => cast, fun _ _ won => won⟩

theorem keeps_trans {first second third : Booth String} (left : Keeps first second)
    (right : Keeps second third) : Keeps first third :=
  ⟨fun _ _ _ cast => right.1 _ _ _ (left.1 _ _ _ cast), fun _ _ won => right.2 _ _ (left.2 _ _ won)⟩

structure NodeVotes (c : Cluster σ ρ) (b : Booth String) (counted : Finset String) (id : String)
    (node : Node) (store : Store σ) : Prop where
  member : id ∈ c.ids
  identity : node.id = id
  peers : node.peers = c.ids.filter (· ≠ id)
  quorum : node.quorum = c.ids.length / 2 + 1
  term : node.currentTerm = store.currentTerm
  vote : node.votedFor = store.votedFor
  running : node.role = .candidate →
    node.votesGranted = counted.card ∧ counted ⊆ c.ids.toFinset ∧ id ∈ counted ∧
      (∀ voter ∈ counted, b.ballot voter node.currentTerm = some id) ∧
      ∀ voters, b.elected node.currentTerm ≠ some (id, voters)
  leading : node.role = .leader → ∃ voters, b.elected node.currentTerm = some (id, voters)
  hinted : node.leaderID ≠ "" →
    ∃ voters, b.elected node.currentTerm = some (node.leaderID, voters)

/-- Vote requests come from standing candidates, appends from elected leaders. -/
structure CallVotes (c : Cluster σ ρ) (b : Booth String) (call : Call) : Prop where
  sender : call.source ∈ c.ids
  receiver : call.peer ∈ c.ids
  apart : call.peer ≠ call.source
  vote : ∀ req, call.request = .vote req → req.term = call.term ∧ req.candidateID = call.source ∧
    b.ballot call.source call.term = some call.source
  append : ∀ req, call.request = .append req → req.term = call.term ∧
    req.leaderID = call.source ∧ ∃ voters, b.elected call.term = some (call.source, voters)

structure Votes (c : Cluster σ ρ) (w : World σ ρ) (b : Booth String)
    (counted : String → Finset String) : Prop where
  sound : Sound c.quorums b
  term : ∀ id, b.term id = (w.members id).store.currentTerm
  ballot : ∀ id, b.ballot id (b.term id) = namedVote (w.members id).store.votedFor
  nodes : ∀ id node, (w.members id).node = some node →
    NodeVotes c b (counted id) id node (w.members id).store
  calls : ∀ call ∈ w.calls, CallVotes c b call
  once : w.calls.Pairwise Call.Apart
  granted : ∀ k resp, (k, .vote resp) ∈ w.replies → resp.voteGranted = true →
    ∃ call, w.calls[k]? = some call ∧ b.ballot call.peer call.term = some call.source
  uncounted : ∀ k call node, w.calls[k]? = some call → call.isVote → k ∉ w.settled →
    (w.members call.source).node = some node → node.role = .candidate →
    node.currentTerm = call.term → call.peer ∉ counted call.source

theorem votes_init (c : Cluster σ ρ) :
    Votes c c.init (Booth.init String) (fun _ => ∅) := by
  have sound := Voting.sound_init c.quorums
  constructor <;> simp_all [Cluster.init, Store.migrated, Booth.init, namedVote]

section Frames

variable {c : Cluster σ ρ} {b after : Booth String}

theorem callVotes_keeps {call : Call} (keeps : Keeps b after) (valid : CallVotes c b call) :
    CallVotes c after call := by
  refine ⟨valid.sender, valid.receiver, valid.apart, ?_, ?_⟩
  · intro req asked
    obtain ⟨term, candidate, standing⟩ := valid.vote req asked
    exact ⟨term, candidate, keeps.1 _ _ _ standing⟩
  · intro req asked
    obtain ⟨term, leader, voters, won⟩ := valid.append req asked
    exact ⟨term, leader, voters, keeps.2 _ _ won⟩

theorem nodeVotes_keeps {counted : Finset String} {id : String} {node : Node} {store : Store σ}
    (keeps : Keeps b after)
    (winners : ∀ term voters, after.elected term = some (id, voters) →
      b.elected term = some (id, voters))
    (valid : NodeVotes c b counted id node store) : NodeVotes c after counted id node store := by
  refine ⟨valid.member, valid.identity, valid.peers, valid.quorum, valid.term, valid.vote,
    ?_, ?_, ?_⟩
  · intro candidate
    obtain ⟨count, inside, self, ballots, fresh⟩ := valid.running candidate
    exact ⟨count, inside, self, fun voter member => keeps.1 _ _ _ (ballots voter member),
      fun voters won => fresh voters (winners _ _ won)⟩
  · intro leader
    obtain ⟨voters, won⟩ := valid.leading leader
    exact ⟨voters, keeps.2 _ _ won⟩
  · intro hint
    obtain ⟨voters, won⟩ := valid.hinted hint
    exact ⟨voters, keeps.2 _ _ won⟩

theorem votes_put {w : World σ ρ} {counted recounted : String → Finset String} {id : String}
    {t : Local σ ρ} (votes : Votes c w b counted) (sound : Sound c.quorums after)
    (keeps : Keeps b after)
    (others : ∀ other, other ≠ id → after.term other = b.term other ∧
      (∀ term, after.ballot other term = b.ballot other term) ∧ recounted other = counted other)
    (winners : ∀ term other voters, other ≠ id → after.elected term = some (other, voters) →
      b.elected term = some (other, voters))
    (term : after.term id = t.store.currentTerm)
    (ballot : after.ballot id (after.term id) = namedVote t.store.votedFor)
    (self : NodeVotes c after (recounted id) id t.node t.store)
    (sent : List Call) (calls : t.calls = w.calls ++ sent)
    (own : ∀ call ∈ sent, call.source = id ∧ CallVotes c after call)
    (once : (w.calls ++ sent).Pairwise Call.Apart)
    (uncounted : ∀ k call, t.calls[k]? = some call → call.isVote → call.source = id →
      k ∉ w.settled → t.node.role = .candidate → t.node.currentTerm = call.term →
      call.peer ∉ recounted id) :
    Votes c (w.put id t) after recounted := by
  refine ⟨sound, ?_, ?_, ?_, ?_, ?_, ?_, ?_⟩
  · intro other
    by_cases same : other = id
    · rw [same, put_member]
      exact term
    · rw [put_member_ne _ _ _ _ same, (others other same).1, votes.term]
  · intro other
    by_cases same : other = id
    · rw [same, put_member]
      exact ballot
    · rw [put_member_ne _ _ _ _ same, (others other same).2.1, (others other same).1, votes.ballot]
  · intro other node up
    by_cases same : other = id
    · subst other
      rw [put_member] at up ⊢
      cases up
      exact self
    · rw [put_member_ne _ _ _ _ same] at up ⊢
      rw [(others other same).2.2]
      exact nodeVotes_keeps keeps (fun term voters => winners term other voters same)
        (votes.nodes other node up)
  · intro call member
    rw [put_calls, calls, List.mem_append] at member
    rcases member with old | new
    · exact callVotes_keeps keeps (votes.calls call old)
    · exact (own call new).2
  · rw [put_calls, calls]
    exact once
  · intro k resp member granted
    obtain ⟨call, found, cast⟩ := votes.granted k resp member granted
    refine ⟨call, ?_, keeps.1 _ _ _ cast⟩
    rw [put_calls, calls]
    exact getElem?_grown (List.prefix_append _ _) found
  · intro k call node found vote pending up candidate current
    by_cases same : call.source = id
    · rw [same, put_member] at up
      cases up
      rw [same]
      exact uncounted k call found vote same pending candidate current
    · rw [put_member_ne _ _ _ _ same] at up
      rw [(others _ same).2.2]
      rw [put_calls, calls] at found
      have old : w.calls[k]? = some call := by
        rcases Nat.lt_or_ge k w.calls.length with inside | outside
        · rwa [List.getElem?_append_left inside] at found
        · rw [List.getElem?_append_right outside] at found
          exact absurd (own call (List.mem_of_getElem? found)).1 same
      exact votes.uncounted k call node old vote pending up candidate current

end Frames

structure SameBallot (s t : Local σ ρ) : Prop where
  id : t.node.id = s.node.id
  peers : t.node.peers = s.node.peers
  quorum : t.node.quorum = s.node.quorum
  role : t.node.role = s.node.role
  currentTerm : t.node.currentTerm = s.node.currentTerm
  votedFor : t.node.votedFor = s.node.votedFor
  votesGranted : t.node.votesGranted = s.node.votesGranted
  leaderID : t.node.leaderID = s.node.leaderID
  storeTerm : t.store.currentTerm = s.store.currentTerm
  storeVote : t.store.votedFor = s.store.votedFor

theorem sameBallot_deliver {s : Local σ ρ} {apply : Option (ApplyFunc σ ρ)} {index term : Nat}
    {entry : LogEntry} {result : Option ρ} {after : Local σ ρ}
    (applied : applyStep apply index term entry s = .ok (result, after)) :
    SameBallot s (after.deliver index result) := by
  obtain ⟨lastApplied, app, rfl⟩ := applyStep_facts applied
  unfold Local.deliver
  split <;> constructor <;> rfl

theorem sameBallot_recordMatch {s : Local σ ρ} (peer : String) (matchIndex : Nat) :
    SameBallot s (s.onNode (recordMatch peer matchIndex)) := by
  constructor <;> simp only [onNode_node, onNode_store, recordMatch] <;> split <;> rfl

section Moving

variable {c : Cluster σ ρ} {w : World σ ρ} {b : Booth String} {counted : String → Finset String}
  {id : String} {node : Node} {t : Local σ ρ}

theorem nodeVotes_same {store : Store σ} (valid : NodeVotes c b (counted id) id node store)
    (same : SameBallot ⟨node, store, w.calls, w.proposals, w.outcomes⟩ t) :
    NodeVotes c b (counted id) id t.node t.store := by
  refine ⟨valid.member, same.id.trans valid.identity, same.peers.trans valid.peers,
    same.quorum.trans valid.quorum, ?_, ?_, ?_, ?_, ?_⟩
  · rw [same.currentTerm, same.storeTerm]
    exact valid.term
  · rw [same.votedFor, same.storeVote]
    exact valid.vote
  · rw [same.role, same.votesGranted, same.currentTerm]
    exact valid.running
  · rw [same.role, same.currentTerm]
    exact valid.leading
  · rw [same.leaderID, same.currentTerm]
    exact valid.hinted

theorem votes_same (votes : Votes c w b counted) (up : (w.members id).node = some node)
    (same : SameBallot (w.view id node) t) (sent : List Call) (calls : t.calls = w.calls ++ sent)
    (appends : ∀ call ∈ sent, call.source = id ∧ CallVotes c b call ∧ ¬call.isVote) :
    Votes c (w.put id t) b counted := by
  -- A turn that leaves ballots alone may send appends of an elected leader.
  have valid := votes.nodes id node up
  apply votes_put votes votes.sound (keeps_refl b) (fun _ _ => ⟨rfl, fun _ => rfl, rfl⟩)
    (fun _ _ _ _ won => won) _ _ (nodeVotes_same valid same) sent calls
  · exact fun call member => ⟨(appends call member).1, (appends call member).2.1⟩
  · rw [List.pairwise_append]
    refine ⟨votes.once, ?_, ?_⟩
    · apply List.Pairwise.imp_of_mem _ (List.pairwise_of_forall (fun _ _ => trivial))
      intro left right first _ _ vote
      exact absurd vote (appends left first).2.2
    · intro left _ right new _ vote
      exact absurd vote (appends right new).2.2
  · intro k call found vote source pending candidate current
    rw [calls] at found
    rcases Nat.lt_or_ge k w.calls.length with inside | outside
    · rw [List.getElem?_append_left inside] at found
      rw [← source]
      refine votes.uncounted k call node found vote pending (source ▸ up) ?_ ?_
      · rw [← candidate, same.role]
        rfl
      · rw [← current, same.currentTerm]
        rfl
    · rw [List.getElem?_append_right outside] at found
      exact absurd vote (appends call (List.mem_of_getElem? found)).2.2
  · rw [votes.term]
    exact same.storeTerm.symm
  · rw [same.storeVote, votes.ballot]
    rfl

theorem votes_quiet (votes : Votes c w b counted) (up : (w.members id).node = some node)
    (same : SameBallot (w.view id node) t) (calls : t.calls = w.calls) :
    Votes c (w.put id t) b counted :=
  votes_same votes up same [] (by rw [calls, List.append_nil]) (by simp)

theorem votes_append {inp : Input} (votes : Votes c w b counted)
    (up : (w.members id).node = some node) (arrived : Arrived w id inp) (peer : String)
    (prevTerm : Nat) (leader : node.role = .leader)
    (known : peer ∈ node.peers ∨ ∃ term resp, inp = .appendReply peer term resp) :
    Votes c (w.put id ((w.view id node).append peer prevTerm)) b counted := by
  have valid := votes.nodes id node up
  have target : peer ∈ c.ids ∧ peer ≠ id := by
    rcases known with listed | ⟨term, resp, rfl⟩
    · rw [valid.peers, List.mem_filter] at listed
      exact ⟨listed.1, by simpa using listed.2⟩
    · obtain ⟨k, call, req, found, source, target, _⟩ := arrived
      have sent := votes.calls call (List.mem_of_getElem? found)
      exact ⟨target ▸ sent.receiver, fun same => sent.apart (by rw [target, source, same])⟩
  apply votes_same votes up _ _ rfl
  · intro call member
    simp only [List.map_cons, List.map_nil, List.mem_singleton] at member
    subst member
    refine ⟨valid.identity, ⟨?_, target.1, ?_, ?_, ?_⟩, ?_⟩
    · exact valid.identity ▸ valid.member
    · intro same
      exact target.2 (same.trans valid.identity)
    · intro req asked
      cases asked
    · intro req asked
      cases asked
      obtain ⟨voters, won⟩ := valid.leading leader
      refine ⟨rfl, rfl, voters, ?_⟩
      change b.elected node.currentTerm = some (node.id, voters)
      rw [valid.identity]
      exact won
    · rintro ⟨req, asked⟩
      cases asked
  · constructor <;> rfl

theorem follow_valid {after : Booth String} {s : Local σ ρ} (leaderID : String)
    (counts : Finset String) (member : id ∈ c.ids) (identity : s.node.id = id)
    (peers : s.node.peers = c.ids.filter (· ≠ id))
    (quorum : s.node.quorum = c.ids.length / 2 + 1)
    (term : s.node.currentTerm = s.store.currentTerm) (vote : s.node.votedFor = s.store.votedFor)
    (hinted : leaderID ≠ "" → ∃ voters, after.elected s.node.currentTerm = some (leaderID, voters)) :
    NodeVotes c after counts id (s.follow leaderID).node (s.follow leaderID).store := by
  rw [follow_store, follow_node]
  exact ⟨member, identity, peers, quorum, term, vote, by rintro ⟨⟩, by rintro ⟨⟩, hinted⟩

theorem votes_named {inp : Input} {term : Nat} {leaderID : String} (votes : Votes c w b counted)
    (arrived : Arrived w id inp)
    (named : leaderID ≠ "" →
      ∃ req, inp = .appendRequest req ∧ req.term = term ∧ req.leaderID = leaderID)
    (nonempty : leaderID ≠ "") : ∃ voters, b.elected term = some (leaderID, voters) := by
  -- The leader an append request names was elected in the request's term.
  obtain ⟨req, rfl, rfl, rfl⟩ := named nonempty
  obtain ⟨k, call, found, _, asked⟩ := arrived
  obtain ⟨term, leader, voters, won⟩ :=
    (votes.calls call (List.mem_of_getElem? found)).append req asked
  exact ⟨voters, by rw [term, leader]; exact won⟩

theorem keeps_bump (term : Nat) : Keeps b (b.bump id term) :=
  ⟨fun _ _ _ cast => cast, fun _ _ won => won⟩

theorem votes_follow (votes : Votes c w b counted) (up : (w.members id).node = some node)
    (leaderID : String)
    (hinted : leaderID ≠ "" → ∃ voters, b.elected node.currentTerm = some (leaderID, voters)) :
    Votes c (w.put id ((w.view id node).follow leaderID)) b counted := by
  have valid := votes.nodes id node up
  apply votes_put votes votes.sound (keeps_refl b) (fun _ _ => ⟨rfl, fun _ => rfl, rfl⟩)
    (fun _ _ _ _ won => won) _ _ _ []
  · rw [follow_calls, List.append_nil]
    rfl
  · simp
  · rw [List.append_nil]
    exact votes.once
  · intro k call _ _ _ _ candidate
    rw [follow_role] at candidate
    cases candidate
  · rw [follow_store]
    exact votes.term id
  · rw [follow_store]
    exact votes.ballot id
  · exact follow_valid leaderID (counted id) valid.member valid.identity valid.peers valid.quorum
      valid.term valid.vote hinted

theorem votes_bump (votes : Votes c w b counted) (up : (w.members id).node = some node)
    (term : Nat) (leaderID : String) (above : node.currentTerm < term)
    (hinted : leaderID ≠ "" → ∃ voters, b.elected term = some (leaderID, voters)) :
    Votes c (w.put id (((w.view id node).advanceTerm term).follow leaderID))
      (b.bump id term) counted := by
  have valid := votes.nodes id node up
  have later : b.term id < term := by rw [votes.term, ← valid.term]; exact above
  have advanced : (w.view id node).advanceTerm term =
      ((w.view id node).onStore (·.setTermAndVote term "")).onNode
        fun n => { n with currentTerm := term, votedFor := "" } := if_pos above
  rw [advanced]
  apply votes_put votes (Voting.sound_bump c.quorums b id term votes.sound later) (keeps_bump term)
    _ (fun _ _ _ _ won => won) _ _ _ []
  · rw [follow_calls, List.append_nil]
    rfl
  · simp
  · rw [List.append_nil]
    exact votes.once
  · intro k call _ _ _ _ candidate
    rw [follow_role] at candidate
    cases candidate
  · intro other different
    exact ⟨by simp [Booth.bump, different], fun _ => rfl, rfl⟩
  · rw [follow_store]
    simp [Booth.bump, Store.setTermAndVote]
  · rw [follow_store]
    simp only [Booth.bump, Function.update_self, onNode_store, onStore_store, Store.setTermAndVote]
    cases cast : b.ballot id term with
    | none => rfl
    | some candidate =>
        have bound := votes.sound.ballot_term id term candidate cast
        omega
  · exact follow_valid leaderID (counted id) valid.member valid.identity valid.peers valid.quorum
      rfl rfl hinted

theorem keeps_cast (candidate : String) (fresh : b.ballot id (b.term id) = none) :
    Keeps b (b.cast id candidate) := by
  refine ⟨?_, fun _ _ won => won⟩
  intro voter term chosen cast
  simp only [Booth.cast]
  split
  · rename_i same
    rw [same.1, same.2, fresh] at cast
    contradiction
  · exact cast

theorem votes_grant (votes : Votes c w b counted) (up : (w.members id).node = some node)
    (candidate : String) (named : candidate ≠ "") (free : node.votedFor = "")
    (standing : b.ballot candidate node.currentTerm = some candidate) :
    Votes c (w.put id ((w.view id node).grant candidate)) (b.cast id candidate) counted := by
  have valid := votes.nodes id node up
  have current : b.term id = node.currentTerm := by rw [votes.term, valid.term]
  have fresh : b.ballot id (b.term id) = none := by
    rw [votes.ballot, ← valid.vote, free]
    rfl
  have keeps := keeps_cast candidate fresh
  have follower : node.role ≠ .candidate := by
    intro running
    obtain ⟨_, _, self, ballots, _⟩ := valid.running running
    have own := ballots id self
    rw [← current, fresh] at own
    contradiction
  apply votes_put votes (Voting.sound_cast c.quorums b id candidate votes.sound fresh
    (Or.inl (by rw [current]; exact standing))) keeps _ (fun _ _ _ _ won => won) _ _ _ []
  · exact (List.append_nil _).symm
  · simp
  · rw [List.append_nil]
    exact votes.once
  · intro k call _ _ _ _ running
    exact absurd running follower
  · intro other different
    exact ⟨rfl, by simp [Booth.cast, different], rfl⟩
  · exact votes.term id
  · change (b.cast id candidate).ballot id (b.term id) = namedVote candidate
    rw [namedVote_of_ne named]
    simp [Booth.cast]
  · have kept := nodeVotes_keeps keeps (fun _ _ won => won) valid
    exact ⟨kept.member, kept.identity, kept.peers, kept.quorum, kept.term, rfl, kept.running,
      kept.leading, kept.hinted⟩

theorem keeps_stand {term : Nat} (sound : Sound c.quorums b) (later : b.term id < term) :
    Keeps b (b.stand id term) := by
  refine ⟨?_, fun _ _ won => won⟩
  intro voter other candidate cast
  simp only [Booth.stand, Booth.cast, Booth.bump, Function.update_self]
  split
  · rename_i same
    have bound := sound.ballot_term voter other candidate cast
    rw [same.1, same.2] at bound
    omega
  · exact cast

theorem peers_nodup (valid : NodeVotes c b (counted id) id node (w.members id).store) :
    node.peers.Nodup := by
  rw [valid.peers]
  exact c.distinct.filter _

theorem peers_other (valid : NodeVotes c b (counted id) id node (w.members id).store)
    (peer : String) (listed : peer ∈ node.peers) : peer ∈ c.ids ∧ peer ≠ id := by
  rw [valid.peers, List.mem_filter] at listed
  exact ⟨listed.1, by simpa using listed.2⟩

theorem votes_stand (votes : Votes c w b counted) (up : (w.members id).node = some node) :
    Votes c (w.put id (w.view id node).stand) (b.stand id (node.currentTerm + 1))
      (Function.update counted id {id}) := by
  -- Candidates stand once a term, so the new requests differ from all earlier ones.
  have valid := votes.nodes id node up
  have current : b.term id = node.currentTerm := by rw [votes.term, valid.term]
  have later : b.term id < node.currentTerm + 1 := by omega
  have keeps := keeps_stand votes.sound later
  have own : (b.stand id (node.currentTerm + 1)).ballot id (node.currentTerm + 1) = some id := by
    simp [Booth.stand, Booth.cast, Booth.bump]
  have older : ∀ call ∈ w.calls, call.isVote → call.source = id →
      call.term ≤ node.currentTerm := by
    rintro call member ⟨req, asked⟩ source
    obtain ⟨_, _, standing⟩ := (votes.calls call member).vote req asked
    rw [← current, ← source]
    exact votes.sound.ballot_term _ _ _ standing
  apply votes_put votes (Voting.sound_stand c.quorums b id _ votes.sound later) keeps
    _ (fun _ _ _ _ won => won) _ _ _ (node.peers.map fun peer => ⟨node.id, peer,
      node.currentTerm + 1, .vote (node.standFor (node.currentTerm + 1)).voteRequest⟩) rfl
  · intro call member
    obtain ⟨peer, listed, rfl⟩ := List.mem_map.mp member
    obtain ⟨inside, different⟩ := peers_other valid peer listed
    refine ⟨valid.identity, valid.identity ▸ valid.member, inside, ?_, ?_, ?_⟩
    · intro same
      exact different (same.trans valid.identity)
    · rintro req ⟨⟩
      refine ⟨rfl, rfl, ?_⟩
      rw [valid.identity]
      exact own
    · rintro req ⟨⟩
  · rw [List.pairwise_append]
    refine ⟨votes.once, ?_, ?_⟩
    · rw [List.pairwise_map]
      apply (peers_nodup valid).imp
      intro left right different _ _ same
      exact different same.2.2
    · intro left old right new leftVote _ same
      obtain ⟨peer, _, rfl⟩ := List.mem_map.mp new
      have bound := older left old leftVote (same.1.trans valid.identity)
      have term : left.term = node.currentTerm + 1 := same.2.1
      omega
  · intro k call found vote source _ _ term
    rw [Function.update_self, Finset.mem_singleton]
    rcases List.mem_append.mp (List.mem_of_getElem? found) with old | new
    · have bound := older call old vote source
      have same : node.currentTerm + 1 = call.term := term
      omega
    · obtain ⟨peer, listed, rfl⟩ := List.mem_map.mp new
      exact (peers_other valid peer listed).2
  · intro other different
    refine ⟨?_, ?_, ?_⟩
    · simp [Booth.stand, Booth.cast, Booth.bump, different]
    · simp [Booth.stand, Booth.cast, Booth.bump, different]
    · simp [different]
  · simp [Booth.stand, Booth.cast, Booth.bump, Local.stand, Local.campaign, Local.send, World.view,
      Store.setTermAndVote]
  · have term : (b.stand id (node.currentTerm + 1)).term id = node.currentTerm + 1 := by
      simp [Booth.stand, Booth.cast, Booth.bump]
    rw [term, own]
    change some id = namedVote node.id
    rw [valid.identity, namedVote_of_ne (c.named id valid.member)]
  · refine ⟨valid.member, valid.identity, valid.peers, valid.quorum, rfl, rfl, ?_, ?_, ?_⟩
    · intro _
      rw [Function.update_self]
      refine ⟨rfl, ?_, Finset.mem_singleton_self id, ?_, ?_⟩
      · simpa using valid.member
      · intro voter member
        rw [Finset.mem_singleton.mp member]
        exact own
      · intro voters won
        have bound := Voting.elected_term c.quorums b votes.sound (node.currentTerm + 1) id voters won
        omega
    · rintro ⟨⟩
    · intro named
      exact absurd rfl named

theorem majority_of_count (valid : NodeVotes c b (counted id) id node (w.members id).store)
    (candidate : node.role = .candidate) (won : node.quorum ≤ node.votesGranted) :
    c.quorums.isQuorum (counted id) := by
  obtain ⟨count, inside, _⟩ := valid.running candidate
  refine ⟨inside, ?_⟩
  rw [List.toFinset_card_of_nodup c.distinct, ← valid.quorum, ← count]
  exact won

theorem votes_promote (votes : Votes c w b counted) (up : (w.members id).node = some node)
    (candidate : node.role = .candidate) (won : node.quorum ≤ node.votesGranted) :
    b.elected node.currentTerm = none ∧
      Votes c (w.put id ((w.view id node).onNode Node.becomeLeader)) (b.elect id (counted id))
        counted := by
  have valid := votes.nodes id node up
  have current : b.term id = node.currentTerm := by rw [votes.term, valid.term]
  have quorum := majority_of_count valid candidate won
  obtain ⟨_, _, self, ballots, fresh⟩ := valid.running candidate
  have vacant : b.elected node.currentTerm = none := by
    cases found : b.elected node.currentTerm with
    | none => rfl
    | some winner =>
        obtain ⟨leader, voters⟩ := winner
        have same := Voting.elected_unique c.quorums b votes.sound _ leader id voters (counted id)
          found quorum ballots
        subst same
        exact absurd found (fresh voters)
  have keeps : Keeps b (b.elect id (counted id)) := by
    refine ⟨fun _ _ _ cast => cast, ?_⟩
    intro term winner found
    simp only [Booth.elect]
    rw [Function.update_of_ne, found]
    rintro rfl
    rw [current, vacant] at found
    contradiction
  have elected : (b.elect id (counted id)).elected node.currentTerm = some (id, counted id) := by
    simp [Booth.elect, current]
  refine ⟨vacant, ?_⟩
  apply votes_put votes (Voting.sound_elect c.quorums b id (counted id) votes.sound quorum self
    (by rw [current]; exact ballots)) keeps (fun _ _ => ⟨rfl, fun _ => rfl, rfl⟩) _ _ _ _ []
  · exact (List.append_nil _).symm
  · simp
  · rw [List.append_nil]
    exact votes.once
  · rintro k call _ _ _ _ ⟨⟩
  · intro term other voters different found
    by_cases same : term = b.term id
    · subst term
      simp only [Booth.elect, Function.update_self, Option.some.injEq, Prod.mk.injEq] at found
      exact absurd found.1.symm different
    · simpa [Booth.elect, same] using found
  · exact votes.term id
  · exact votes.ballot id
  · refine ⟨valid.member, valid.identity, valid.peers, valid.quorum, valid.term, valid.vote,
      by rintro ⟨⟩, ?_, ?_⟩
    · exact fun _ => ⟨counted id, elected⟩
    · intro _
      refine ⟨counted id, ?_⟩
      change (b.elect id (counted id)).elected node.currentTerm = some (node.id, counted id)
      rw [valid.identity]
      exact elected

end Moving

section Bookkeeping

variable {c : Cluster σ ρ} {w : World σ ρ} {b : Booth String} {counted : String → Finset String}
  {id : String} {node : Node}

theorem votes_settle (votes : Votes c w b counted) (k : Nat) : Votes c (w.settle k) b counted := by
  refine ⟨votes.sound, votes.term, votes.ballot, votes.nodes, votes.calls, votes.once,
    votes.granted, ?_⟩
  intro j call node found vote pending
  refine votes.uncounted j call node found vote ?_
  intro earlier
  exact pending (List.mem_append_left _ earlier)

theorem votes_peer_ne (votes : Votes c w b counted) {j k : Nat} {left right : Call}
    (first : w.calls[j]? = some left) (second : w.calls[k]? = some right) (different : j ≠ k)
    (leftVote : left.isVote) (rightVote : right.isVote) (source : left.source = right.source)
    (term : left.term = right.term) : left.peer ≠ right.peer := by
  -- Distinct requests of one candidacy go to distinct voters.
  have pairs := List.pairwise_iff_getElem.mp votes.once
  obtain ⟨leftInside, rfl⟩ := List.getElem?_eq_some_iff.mp first
  obtain ⟨rightInside, rfl⟩ := List.getElem?_eq_some_iff.mp second
  intro same
  rcases Nat.lt_or_gt_of_ne different with before | beyond
  · exact pairs j k leftInside rightInside before leftVote rightVote ⟨source, term, same⟩
  · exact pairs k j rightInside leftInside beyond rightVote leftVote
      ⟨source.symm, term.symm, same.symm⟩

theorem votes_count {k : Nat} {call : Call} {req : RequestVoteRequest}
    {resp : RequestVoteResponse} (votes : Votes c w b counted) (sent : w.calls[k]? = some call)
    (asked : call.request = .vote req) (answered : (k, .vote resp) ∈ w.replies)
    (pending : k ∉ w.settled) (up : (w.members call.source).node = some node)
    (counts : CountsVote call.term resp false (w.view call.source node)) :
    Votes c ((w.settle k).put call.source (w.view call.source node).count) b
      (Function.update counted call.source (insert call.peer (counted call.source))) := by
  -- The number of granted votes is the size of a set: the voter was not counted yet.
  obtain ⟨_, _, candidate, current, granted⟩ := counts
  have valid := votes.nodes call.source node up
  have candidacy : node.role = .candidate := candidate
  have sameTerm : node.currentTerm = call.term := current.symm
  obtain ⟨count, inside, self, ballots, fresh⟩ := valid.running candidacy
  obtain ⟨_, found, cast⟩ := votes.granted k resp answered granted
  obtain rfl := Option.some.inj (sent.symm.trans found)
  have absent := votes.uncounted k call node sent ⟨req, asked⟩ pending up candidacy sameTerm
  have receiver := (votes.calls call (List.mem_of_getElem? sent)).receiver
  apply votes_put (votes_settle votes k) votes.sound (keeps_refl b) _ (fun _ _ _ _ won => won)
    _ _ _ []
  · exact (List.append_nil _).symm
  · simp
  · rw [List.append_nil]
    exact votes.once
  · intro j other found vote source unsettled _ term
    have earlier : j ∉ w.settled := fun member => unsettled (List.mem_append_left _ member)
    have different : j ≠ k := by
      rintro rfl
      exact unsettled (List.mem_append_right _ (by simp))
    have otherTerm : node.currentTerm = other.term := term
    rw [Function.update_self, Finset.mem_insert, not_or]
    refine ⟨?_, ?_⟩
    · exact votes_peer_ne votes found sent different vote ⟨req, asked⟩ source
        (otherTerm.symm.trans sameTerm)
    · rw [← source]
      exact votes.uncounted j other node found vote earlier (source ▸ up) candidacy otherTerm
  · intro other different
    exact ⟨rfl, fun _ => rfl, by simp [different]⟩
  · exact votes.term call.source
  · exact votes.ballot call.source
  · refine ⟨valid.member, valid.identity, valid.peers, valid.quorum, valid.term, valid.vote,
      ?_, ?_, valid.hinted⟩
    · intro _
      rw [Function.update_self]
      refine ⟨?_, ?_, Finset.mem_insert_of_mem self, ?_, fresh⟩
      · rw [Finset.card_insert_of_notMem absent, ← count]
        rfl
      · exact Finset.insert_subset (by simpa using receiver) inside
      · intro voter member
        rcases Finset.mem_insert.mp member with rfl | old
        · change b.ballot call.peer node.currentTerm = _
          rw [sameTerm]
          exact cast
        · exact ballots voter old
    · intro leader
      have impossible : node.role = .leader := leader
      rw [candidacy] at impossible
      contradiction

theorem votes_answer (votes : Votes c w b counted) (k : Nat) (resp : Response)
    (backed : ∀ vote, resp = .vote vote → vote.voteGranted = true →
      ∃ call, w.calls[k]? = some call ∧ b.ballot call.peer call.term = some call.source) :
    Votes c (w.answer k resp) b counted := by
  refine ⟨votes.sound, votes.term, votes.ballot, votes.nodes, votes.calls, votes.once, ?_,
    votes.uncounted⟩
  intro j vote member granted
  rcases List.mem_append.mp member with old | new
  · exact votes.granted j vote old granted
  · simp only [List.mem_singleton, Prod.mk.injEq] at new
    rw [new.1]
    exact backed vote new.2.symm granted

theorem votes_answerVote {k : Nat} {call : Call} {req : RequestVoteRequest}
    {resp : RequestVoteResponse} (votes : Votes c w b counted) (sent : w.calls[k]? = some call)
    (asked : call.request = .vote req) (up : (w.members call.peer).node = some node)
    (answer : VoteAnswer req resp (w.view call.peer node)) :
    Votes c (w.answer k (.vote resp)) b counted := by
  apply votes_answer votes
  rintro _ ⟨⟩ granted
  refine ⟨call, sent, ?_⟩
  obtain ⟨current, chosen⟩ := answer.2 granted
  have valid := votes.nodes call.peer node up
  have request := votes.calls call (List.mem_of_getElem? sent)
  obtain ⟨term, candidate, _⟩ := request.vote req asked
  have ballot := votes.ballot call.peer
  have reached : b.term call.peer = call.term := by
    rw [votes.term, ← valid.term, ← term]
    exact current
  have voted : (w.members call.peer).store.votedFor = call.source := by
    rw [← valid.vote, ← candidate]
    exact chosen
  rw [reached, voted, namedVote_of_ne (c.named _ request.sender)] at ballot
  exact ballot

theorem votes_wake (votes : Votes c w b counted) (clusterID : String) (member : id ∈ c.ids) :
    Votes c (w.put id ((w.view id (c.config id).blank).wake clusterID)) b counted := by
  apply votes_put votes votes.sound (keeps_refl b) (fun _ _ => ⟨rfl, fun _ => rfl, rfl⟩)
    (fun _ _ _ _ won => won) _ _ _ []
  · exact (List.append_nil _).symm
  · simp
  · rw [List.append_nil]
    exact votes.once
  · rintro k call _ _ _ _ ⟨⟩
  · exact votes.term id
  · exact votes.ballot id
  · exact ⟨member, rfl, rfl, rfl, rfl, rfl, by rintro ⟨⟩, by rintro ⟨⟩,
      fun named => absurd rfl named⟩

theorem down_store (other : String) :
    ((w.down id).members other).store = (w.members other).store := by
  by_cases same : other = id
  · rw [same]
    simp [World.down]
  · simp [World.down, same]

theorem down_up {other : String} (up : ((w.down id).members other).node = some node) :
    (w.members other).node = some node := by
  by_cases same : other = id
  · rw [same] at up
    simp [World.down] at up
  · simpa [World.down, same] using up

theorem votes_down (votes : Votes c w b counted) (id : String) : Votes c (w.down id) b counted := by
  refine ⟨votes.sound, ?_, ?_, ?_, votes.calls, votes.once, votes.granted, ?_⟩
  · intro other
    rw [down_store]
    exact votes.term other
  · intro other
    rw [down_store]
    exact votes.ballot other
  · intro other node up
    rw [down_store]
    exact votes.nodes other node (down_up up)
  · intro k call node found vote pending up
    refine votes.uncounted k call node found vote ?_ (down_up up)
    exact fun earlier => pending (List.mem_append_left _ earlier)

theorem votes_proposal (votes : Votes c w b counted) (k : Nat) (state : ProposalState ρ) :
    Votes c (w.setProposal k state) b counted :=
  ⟨votes.sound, votes.term, votes.ballot, votes.nodes, votes.calls, votes.once, votes.granted,
    votes.uncounted⟩

end Bookkeeping

end QuorumLimiter
