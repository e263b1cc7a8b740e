import QuorumLimiter.Raft.Linearizable

/-!
A partition. Nodes of `side` are too few for a quorum, and what they send is not
delivered outside; they may still be sent to, and answers may still arrive. What
is proposed on them meanwhile stays among them: it is never committed, and no
caller is told that it was.
-/

namespace QuorumLimiter

open Relation ReplicatedLog Simulation

variable {σ ρ : Type}

/-- The event delivers a request from a node of `side` to one outside. -/
def Crosses (side : Finset String) (w : World σ ρ) (event : Event) : Prop :=
  ∃ k call, event = .deliver k ∧ w.calls[k]? = some call ∧ call.source ∈ side ∧ call.peer ∉ side

def Cluster.NextApart (c : Cluster σ ρ) (side : Finset String) (w after : World σ ρ) : Prop :=
  ∃ plan event, plan.clean ∧ ¬ Crosses side w event ∧ c.step plan w event = some after

/-- Outside `side` nothing is heard of the calls made on it from number `start` on. -/
def Unheard (side : Finset String) (start : Nat) : Hearing :=
  fun id k origin => id ∉ side → k < start ∨ origin ∉ side

section Apart

variable {c : Cluster σ ρ} {side : Finset String} {w u : World σ ρ}

theorem apart_later (run : ReflTransGen (c.NextApart side) w u) : c.Later Plan.clean w u := by
  refine ReflTransGen.mono ?_ w u run
  rintro before after ⟨plan, event, clean, _, stepped⟩
  exact ⟨plan, event, clean, stepped⟩

theorem unheard_carries {start : Nat} {event : Event} (inside : ¬ Crosses side w event) :
    Carries (Unheard side start) w event := by
  intro k call delivered sent j origin heard outside
  apply heard
  intro source
  exact inside ⟨k, call, delivered, sent, source, outside⟩

theorem minted_apart (reachable : c.Reachable Plan.clean w)
    (run : ReflTransGen (c.NextApart side) w u) :
    Minted (Unheard side w.proposals.length) u := by
  induction run with
  | refl =>
      have minted := minted_reachable reachable
      have early {id : String} {entry : LogEntry}
          (traceable : Traceable (fun _ _ => True) w.proposals entry) :
          Traceable (Unheard side w.proposals.length id) w.proposals entry := by
        intro command
        obtain ⟨k, origin, registered, _⟩ := traceable command
        exact ⟨k, origin, registered, fun _ => Or.inl (registration_length registered)⟩
      exact ⟨fun id index entry found => early (minted.stored id index entry found),
        fun call sent req asked entry member => early (minted.sent call sent req asked entry member)⟩
  | tail before next ih =>
      obtain ⟨plan, event, clean, inside, stepped⟩ := next
      have named := reachable_named (reachable.trans (apart_later before))
      exact minted_step named clean (fun _ _ outside => Or.inr outside) (unheard_carries inside)
        stepped ih

theorem apart_stored (reachable : c.Reachable Plan.clean w)
    (run : ReflTransGen (c.NextApart side) w u) {k : Nat} {origin : String} {entry : LogEntry}
    (new : w.proposals.length ≤ k) (registered : registration u.proposals k = some (origin, entry))
    (cut : origin ∈ side) {id : String} (outside : id ∉ side) (index : Nat) :
    u.entry id index ≠ some entry := by
  intro found
  have reached := reachable.trans (apart_later run)
  obtain ⟨j, sender, known, heard⟩ := (minted_apart reachable run).stored id index entry found
    (registration_command reached registered)
  obtain rfl := registered_once reached known registered
  obtain ⟨rfl, _⟩ := Prod.mk.inj (Option.some.inj (known.symm.trans registered))
  rcases heard outside with old | apart
  · omega
  · exact apart cut

theorem outside_backer (small : (c.ids.filter (· ∈ side)).length < c.ids.length / 2 + 1)
    (backers : Finset String) (listed : backers ⊆ c.ids.toFinset)
    (quorum : c.ids.length / 2 + 1 ≤ backers.card) : ∃ id ∈ backers, id ∉ side := by
  by_contra every
  push Not at every
  have inside : backers ⊆ (c.ids.filter (· ∈ side)).toFinset := by
    intro id member
    simp only [List.toFinset_filter, decide_eq_true_eq, Finset.mem_filter]
    exact ⟨listed member, every id member⟩
  have bound := (Finset.card_le_card inside).trans (List.toFinset_card_le _)
  omega

theorem committed_backed {g : History} {counted : String → Finset String}
    (valid : Replicated c u g counted) {id : String} {index : Nat} (positive : 1 ≤ index)
    (committed : u.Committed id index) :
    ∃ backers : Finset String, backers ⊆ c.ids.toFinset ∧ c.ids.length / 2 + 1 ≤ backers.card ∧
      ∀ member ∈ backers, u.entry member index = u.entry id index := by
  rcases committed_settled valid committed with zero | ⟨term, _, chosen, same⟩
  · omega
  · obtain ⟨backers, ⟨inside, large⟩, held⟩ := chosen_held valid.logs.sound term (by omega)
    rw [List.toFinset_card_of_nodup c.distinct] at large
    refine ⟨backers, inside, large, fun member belongs => ?_⟩
    have agrees := take_shorter _ _ _ _ chosen (held member belongs)
    exact storesLog_agree (valid.logs.stores member) (valid.logs.stores id) index index
      (agrees.trans same.symm) (Nat.le_refl _)

theorem apart_uncommitted (small : (c.ids.filter (· ∈ side)).length < c.ids.length / 2 + 1)
    (reachable : c.Reachable Plan.clean w) (run : ReflTransGen (c.NextApart side) w u) {k : Nat}
    {origin : String} {entry : LogEntry} (new : w.proposals.length ≤ k)
    (registered : registration u.proposals k = some (origin, entry)) (cut : origin ∈ side)
    (id : String) (index : Nat) (committed : u.Committed id index) :
    u.entry id index ≠ some entry := by
  have reached := reachable.trans (apart_later run)
  intro found
  obtain ⟨_, _, valid⟩ := replicated_reachable reached
  have positive : 1 ≤ index := by
    by_contra zero
    obtain rfl : index = 0 := by omega
    cases (storesLog_sentinel (valid.logs.stores id)).symm.trans found
    cases registration_command reached registered
  obtain ⟨backers, listed, quorum, stored⟩ := committed_backed valid positive committed
  obtain ⟨backer, member, outside⟩ := outside_backer small backers listed quorum
  exact apart_stored reachable run new registered cut outside index
    ((stored backer member).trans found)

theorem apart_unanswered (checkpoints : Checkpoints c.apply)
    (small : (c.ids.filter (· ∈ side)).length < c.ids.length / 2 + 1)
    (reachable : c.Reachable Plan.clean w) (run : ReflTransGen (c.NextApart side) w u) {k : Nat}
    {origin : String} {entry : LogEntry} (new : w.proposals.length ≤ k)
    (registered : registration u.proposals k = some (origin, entry)) (cut : origin ∈ side)
    (twin : LogEntry) (result : Option ρ) : ¬ u.Returned k twin result := by
  intro returned
  obtain ⟨_, _, valid, answering⟩ :=
    answering_reachable checkpoints (reachable.trans (apart_later run))
  obtain ⟨node, found⟩ := returned
  obtain ⟨committed, present, _⟩ := finished_result valid answering k _ result found rfl
  obtain ⟨rfl, rfl⟩ : node = origin ∧ twin = entry := by
    simpa [registration, found] using registered
  exact apart_uncommitted small reachable run new registered cut _ _ committed present

end Apart

/-- What is proposed on a minority while it is cut off is committed by no node, and
none of its callers gets a result. -/
theorem minority_commits_nothing (c : Cluster σ ρ) (checkpoints : Checkpoints c.apply)
    (side : Finset String) (small : (c.ids.filter (· ∈ side)).length < c.ids.length / 2 + 1)
    (w u : World σ ρ) (reachable : c.Reachable Plan.clean w)
    (run : ReflTransGen (c.NextApart side) w u) (k : Nat) (origin : String) (entry : LogEntry)
    (new : w.proposals.length ≤ k) (registered : registration u.proposals k = some (origin, entry))
    (cut : origin ∈ side) :
    (∀ id index, u.Committed id index → u.entry id index ≠ some entry) ∧
      ∀ twin result, ¬ u.Returned k twin result := by
  exact ⟨apart_uncommitted small reachable run new registered cut,
    apart_unanswered checkpoints small reachable run new registered cut⟩

/-- The first leader, cut off, appends a command that nobody else will hold. -/
theorem minority_commits_nothing_tally : ∃ w u : World Nat Nat, tally.Reachable Plan.clean w ∧
    ReflTransGen (tally.NextApart {"a"}) w u ∧
    registration u.proposals 0 = some ("a", ⟨2, 1, .command, [7]⟩) ∧
    u.entry "a" 2 = some ⟨2, 1, .command, [7]⟩ ∧ ¬ u.Committed "a" 2 ∧
    ∀ twin result, ¬ u.Returned 0 twin result := by
  obtain ⟨w, ran, played⟩ := Option.bind_eq_some_iff.mp
    (by decide +kernel : ((tally.steps tally.init (smoothly electFirst)).bind fun w =>
      (tally.step Plan.smooth w (.propose "a" [7])).map fun u =>
        (w.proposals.length, registration u.proposals 0, u.entry "a" 2)) =
      some (0, some ("a", ⟨2, 1, .command, [7]⟩), some ⟨2, 1, .command, [7]⟩))
  obtain ⟨u, proposed, seen⟩ := Option.map_eq_some_iff.mp played
  simp only [Prod.mk.injEq] at seen
  obtain ⟨none, registered, found⟩ := seen
  have reachable : tally.Reachable Plan.clean w := smoothly_later tally _ _ w smooth_clean ran
  have run : ReflTransGen (tally.NextApart {"a"}) w u :=
    ReflTransGen.single ⟨Plan.smooth, _, smooth_clean, by rintro ⟨_, _, ⟨⟩, _⟩, proposed⟩
  obtain ⟨uncommitted, unanswered⟩ := minority_commits_nothing tally tally_checkpoints {"a"}
    (by decide) w u reachable run 0 "a" _ (Nat.le_of_eq none) registered (by decide)
  exact ⟨w, u, reachable, run, registered, found,
    fun committed => uncommitted "a" 2 committed found, unanswered⟩

end QuorumLimiter
