import Mathlib.Data.Finset.Max
import QuorumLimiter.Raft.Provenance

/-!
The cluster seen by its callers. All nodes, at all times up to a given one, have
committed prefixes of one sequence of entries. Every result ever handed out and
every state any node was in is what running that sequence gives, and a call that
returned before another was made comes before it.
-/

namespace QuorumLimiter

open Relation ReplicatedLog Simulation

variable {σ ρ : Type}

def World.committedLog (w : World σ ρ) (id : String) : List LogEntry :=
  (w.members id).store.entries 1 (w.members id).store.commitIndex

/-- The call returned this result to its caller. -/
def World.Returned (w : World σ ρ) (k : Nat) (entry : LogEntry) (result : Option ρ) : Prop :=
  ∃ node, w.proposals[k]? = some ⟨node, entry, .finished (.ok result)⟩

/-- Running the order gives this result at the entry's own place. -/
def Answered (c : Cluster σ ρ) (order : List LogEntry) (entry : LogEntry) (result : Option ρ) :
    Prop :=
  1 ≤ entry.index ∧ order[entry.index - 1]? = some entry ∧
    ∃ state next, replay c.apply 1 (order.take (entry.index - 1)) (0, c.app) = .ok state ∧
      transition c.apply entry.index entry state = .ok (result, next)

/-- One order of all commands explains what callers and nodes have seen up to `u`. -/
structure Linearizes (c : Cluster σ ρ) (u : World σ ρ) (order : List LogEntry) : Prop where
  committed : ∃ id, u.committedLog id = order
  covers : ∀ w, c.Reachable Plan.clean w → c.Later Plan.clean w u →
    ∀ id, w.committedLog id <+: order
  proposed : ∀ entry ∈ order, entry.kind = .command → ∃ k origin, Called c u k origin entry
  answers : ∀ k entry result, u.Returned k entry result → Answered c order entry result
  apart : ∀ j k first second result answer, u.Returned j first result →
    u.Returned k second answer → first.index = second.index → j = k
  states : ∀ w, c.Reachable Plan.clean w → c.Later Plan.clean w u → ∀ id,
    (w.members id).store.lastApplied ≤ order.length ∧
    replay c.apply 1 (order.take (w.members id).store.lastApplied) (0, c.app) =
      .ok ((w.members id).store.lastApplied, (w.members id).store.app)
  realTime : ∀ w, c.Reachable Plan.clean w → c.Later Plan.clean w u →
    ∀ j first result, w.Returned j first result → ∀ k second answer, w.proposals.length ≤ k →
      u.Returned k second answer → first.index < second.index

section Order

variable {c : Cluster σ ρ} {w u : World σ ρ} {g reached : History}
  {counted recounted : String → Finset String}

theorem committedLog_take (valid : Replicated c w g counted) (id : String) :
    w.committedLog id = (g.log id).take (w.members id).store.commitIndex := by
  rw [World.committedLog, storesLog_entries (valid.logs.stores id) _ _ (Nat.le_refl 1)]
  rfl

theorem committedLog_length (valid : Replicated c w g counted) (id : String) :
    (w.committedLog id).length = (w.members id).store.commitIndex := by
  have reach := settled_length valid.logs.sound (valid.logs.commits id)
  rw [committedLog_take valid id, List.length_take]
  omega

theorem outsider_store (reachable : c.Reachable Plan.clean w) (id : String) (outside : id ∉ c.ids) :
    (w.members id).store.commitIndex = 0 := by
  have kept : ∃ g counted, Replicated c w g counted ∧ (w.members id).store.commitIndex = 0 := by
    apply run_invariant (fun w : World σ ρ => ∃ g counted, Replicated c w g counted ∧
      (w.members id).store.commitIndex = 0) _ (later_taken reachable)
    · exact ⟨_, _, ⟨votes_init c, logs_init c⟩, rfl⟩
    · rintro w after ⟨plan, inp, clean, turn⟩ ⟨g, counted, valid, zero⟩
      obtain ⟨reached, recounted, holds, _⟩ := replicated_turn clean valid turn
      refine ⟨reached, recounted, holds, ?_⟩
      have moved := turn_member turn id
      generalize after.members id = member at moved
      cases moved with
      | wake clusterID listed => exact absurd listed outside
      | move node s up => exact absurd (valid.votes.nodes id node up).member outside
      | _ => exact zero
  obtain ⟨_, _, _, zero⟩ := kept
  exact zero

theorem highest_commit (reachable : c.Reachable Plan.clean w) :
    ∃ top, ∀ id, (w.members id).store.commitIndex ≤ (w.members top).store.commitIndex := by
  obtain ⟨top, _, greatest⟩ := Finset.exists_max_image (insert "" c.ids.toFinset)
    (fun id => (w.members id).store.commitIndex) ⟨"", Finset.mem_insert_self _ _⟩
  refine ⟨top, fun id => ?_⟩
  by_cases listed : id ∈ c.ids
  · exact greatest id (Finset.mem_insert_of_mem (List.mem_toFinset.mpr listed))
  · rw [outsider_store reachable id listed]
    exact Nat.zero_le _

theorem committedLog_covered (reachable : c.Reachable Plan.clean w) (run : c.Later Plan.clean w u)
    (id top : String)
    (greatest : ∀ id, (u.members id).store.commitIndex ≤ (u.members top).store.commitIndex) :
    w.committedLog id <+: u.committedLog top := by
  obtain ⟨g, counted, valid⟩ := replicated_reachable reachable
  obtain ⟨reached, recounted, holds, extended, grown⟩ := replicated_later valid run
  have early : Settled reached (g.log id) (g.term id) (w.members id).store.commitIndex :=
    settled_extends valid.logs.sound extended (valid.logs.commits id) (Nat.le_refl _) rfl
  have bound := Nat.le_trans (grown id) (greatest id)
  have late := settled_shorter (holds.logs.commits top) bound
  have same := settled_agree holds.logs.sound early late
  rw [committedLog_take valid, committedLog_take holds, same]
  exact List.take_prefix_take_left bound

theorem applied_covered (checkpoints : Checkpoints c.apply) (reachable : c.Reachable Plan.clean w)
    {order : List LogEntry} (id : String) (covered : w.committedLog id <+: order) :
    (w.members id).store.lastApplied ≤ order.length ∧
    replay c.apply 1 (order.take (w.members id).store.lastApplied) (0, c.app) =
      .ok ((w.members id).store.lastApplied, (w.members id).store.app) := by
  obtain ⟨g, counted, valid, _, applied⟩ := applied_later checkpoints (fun _ => applied_init c)
    ⟨votes_init c, logs_init c⟩ reachable
  have bounded := (applied id).bounded
  have inside : (w.members id).store.lastApplied ≤ (w.committedLog id).length := by
    rw [committedLog_length valid]
    exact bounded
  refine ⟨Nat.le_trans inside covered.length_le, ?_⟩
  rw [take_of_grows _ _ _ covered inside, committedLog_take valid, List.take_take,
    Nat.min_eq_left bounded]
  exact (applied id).replayed

theorem returned_place (checkpoints : Checkpoints c.apply) (reachable : c.Reachable Plan.clean u)
    {k : Nat} {entry : LogEntry} {result : Option ρ} (returned : u.Returned k entry result) :
    ∃ node, registration u.proposals k = some (node, entry) ∧
      Answered c (u.committedLog node) entry result := by
  obtain ⟨g, counted, valid, answering⟩ := answering_reachable checkpoints reachable
  obtain ⟨node, found⟩ := returned
  have outcome := answering.finished k _ result found rfl
  obtain ⟨id, own, registered, positive, committed, present, state, next, replayed, stepped⟩ :=
    answering.delivered k result outcome
  obtain ⟨rfl, rfl⟩ : node = id ∧ entry = own := by simpa [registration, found] using registered
  refine ⟨node, registered, positive, ?_, state, next, ?_, stepped⟩
  · rw [committedLog_take valid, List.getElem?_take_of_lt (by omega)]
    exact present
  · rw [committedLog_take valid, List.take_take, Nat.min_eq_left (by omega)]
    exact replayed

theorem registration_command (reachable : c.Reachable Plan.clean w) {k : Nat} {node : String}
    {entry : LogEntry} (registered : registration w.proposals k = some (node, entry)) :
    entry.kind = .command := by
  obtain ⟨plan, before, after, _, _, proposed, _, outside, found⟩ :=
    registered_called reachable k node entry registered
  obtain ⟨_, added, _, grown, own⟩ := propose_registers proposed
  rw [grown, registration, List.getElem?_append_right outside] at found
  obtain ⟨proposal, present, same⟩ := Option.map_eq_some_iff.mp found
  obtain ⟨_, rfl⟩ := Prod.mk.inj same
  exact (own proposal (List.mem_of_getElem? present)).2.1

theorem returned_command (reachable : c.Reachable Plan.clean w) {k : Nat} {entry : LogEntry}
    {result : Option ρ} (returned : w.Returned k entry result) : entry.kind = .command := by
  obtain ⟨node, found⟩ := returned
  exact registration_command reachable
    (show registration w.proposals k = some (node, entry) by rw [registration, found]; rfl)

theorem committed_called (reachable : c.Reachable Plan.clean w) {id : String} {entry : LogEntry}
    (member : entry ∈ w.committedLog id) (command : entry.kind = .command) :
    ∃ k origin, registration w.proposals k = some (origin, entry) := by
  obtain ⟨index, found⟩ := entries_members member
  obtain ⟨k, origin, registered, _⟩ :=
    (minted_reachable reachable).stored id index entry found command
  exact ⟨k, origin, registered⟩

theorem returned_before (checkpoints : Checkpoints c.apply) (reachable : c.Reachable Plan.clean w)
    (run : c.Later Plan.clean w u) {order : List LogEntry}
    (covers : ∀ id, w.committedLog id <+: order)
    {j : Nat} {first : LogEntry} {result : Option ρ} (returned : w.Returned j first result)
    {k : Nat} {origin : String} {second : LogEntry} (new : w.proposals.length ≤ k)
    (registered : registration u.proposals k = some (origin, second)) (positive : 1 ≤ second.index)
    (placed : order[second.index - 1]? = some second) : first.index < second.index := by
  -- At or below the first call's index the log was already committed when it returned, and all
  -- commands in it belonged to calls made by then.
  by_contra below
  obtain ⟨node, _, _, present, _⟩ := returned_place checkpoints reachable returned
  have inside := (List.getElem?_eq_some_iff.mp present).1
  have there : (w.committedLog node)[second.index - 1]? = some second := by
    obtain ⟨rest, rfl⟩ := covers node
    rw [List.getElem?_append_left (by omega)] at placed
    exact placed
  have later := reachable.trans run
  obtain ⟨early, sender, known⟩ := committed_called reachable (List.mem_of_getElem? there)
    (registration_command later registered)
  have same := registered_once later (registration_later run known) registered
  have made := registration_length known
  omega

theorem replay_split {apply : Option (ApplyFunc σ ρ)} (early late : List LogEntry)
    (index : Nat) (state after : Nat × σ)
    (replayed : replay apply index (early ++ late) state = .ok after) :
    ∃ middle, replay apply index early state = .ok middle ∧
      replay apply (index + early.length) late middle = .ok after := by
  induction early generalizing index state with
  | nil => exact ⟨state, rfl, replayed⟩
  | cons entry rest ih =>
      simp only [List.cons_append, replay] at replayed ⊢
      split at replayed
      · contradiction
      · obtain ⟨middle, before, rest⟩ := ih (index + 1) _ replayed
        refine ⟨middle, before, ?_⟩
        rw [List.length_cons, Nat.add_comm _ 1, ← Nat.add_assoc]
        exact rest

theorem answered_grows {early order : List LogEntry} (grown : early <+: order) {entry : LogEntry}
    {result : Option ρ} (answered : Answered c early entry result) :
    Answered c order entry result := by
  obtain ⟨positive, present, state, next, replayed, stepped⟩ := answered
  have inside := (List.getElem?_eq_some_iff.mp present).1
  refine ⟨positive, getElem?_of_grows _ _ _ _ grown present, state, next, ?_, stepped⟩
  rw [take_of_grows _ _ _ grown (by omega)]
  exact replayed

theorem answered_take {order : List LogEntry} {first : LogEntry} {r : Option ρ}
    (answered : Answered c order first r) {later : Nat} (reach : first.index ≤ later)
    {last : Nat × σ} (replayed : replay c.apply 1 (order.take later) (0, c.app) = .ok last) :
    ∃ state middle between, between ⊆ order ∧
      replay c.apply 1 (order.take (first.index - 1)) (0, c.app) = .ok state ∧
      transition c.apply first.index first state = .ok (r, middle) ∧
      replay c.apply (first.index + 1) between middle = .ok last := by
  obtain ⟨positive, present, state, middle, before, stepped⟩ := answered
  have inside := (List.getElem?_eq_some_iff.mp present).1
  have cut : order.take later = (order.take (first.index - 1) ++ [first]) ++
      (order.take later).drop first.index := by
    conv_lhs => rw [← List.take_append_drop first.index (order.take later)]
    rw [List.take_take, Nat.min_eq_left reach]
    congr 1
    have whole : first.index = first.index - 1 + 1 := by omega
    rw [whole, List.take_add_one, Nat.add_sub_cancel, present]
    rfl
  rw [cut] at replayed
  obtain ⟨meeting, early, late⟩ := replay_split _ _ _ _ _ replayed
  have same : replay c.apply 1 (order.take (first.index - 1) ++ [first]) (0, c.app) =
      .ok middle := by
    apply replay_append 1 _ _ _ _ _ r before
    rw [List.length_take, Nat.min_eq_left (by omega), Nat.add_sub_cancel' positive]
    exact stepped
  obtain rfl : meeting = middle := Except.ok.inj (early.symm.trans same)
  refine ⟨state, meeting, (order.take later).drop first.index, ?_, before, stepped, ?_⟩
  · exact ((List.drop_sublist _ _).trans (List.take_sublist _ _)).subset
  · rw [List.length_append, List.length_take, List.length_singleton, Nat.min_eq_left (by omega),
      Nat.sub_add_cancel positive, Nat.add_comm] at late
    exact late

theorem linearizes_between {order : List LogEntry} {first second : LogEntry} {r s : Option ρ}
    (returned : Answered c order first r) (again : Answered c order second s)
    (before : first.index < second.index) :
    ∃ state middle last next between, between ⊆ order ∧
      transition c.apply first.index first state = .ok (r, middle) ∧
      replay c.apply (first.index + 1) between middle = .ok last ∧
      transition c.apply second.index second last = .ok (s, next) := by
  obtain ⟨_, _, last, next, reached, answered⟩ := again
  obtain ⟨state, middle, between, inside, _, stepped, more⟩ :=
    answered_take returned (Nat.le_sub_one_of_lt before) reached
  exact ⟨state, middle, last, next, between, inside, stepped, more, answered⟩

theorem longest_linearizes (checkpoints : Checkpoints c.apply)
    (reachable : c.Reachable Plan.clean u)
    {top : String}
    (greatest : ∀ id, (u.members id).store.commitIndex ≤ (u.members top).store.commitIndex) :
    Linearizes c u (u.committedLog top) := by
  have covers (w : World σ ρ) (early : c.Reachable Plan.clean w) (run : c.Later Plan.clean w u)
      (id : String) := committedLog_covered early run id top greatest
  have places {k : Nat} {entry : LogEntry} {result : Option ρ}
      (returned : u.Returned k entry result) : ∃ node,
      registration u.proposals k = some (node, entry) ∧
        Answered c (u.committedLog top) entry result := by
    obtain ⟨node, registered, answered⟩ := returned_place checkpoints reachable returned
    exact ⟨node, registered, answered_grows (covers u reachable ReflTransGen.refl node) answered⟩
  refine ⟨⟨top, rfl⟩, covers, ?_, ?_, ?_, ?_, ?_⟩
  · intro entry member command
    obtain ⟨k, origin, registered⟩ := committed_called reachable member command
    exact ⟨k, origin, registered_called reachable k origin entry registered⟩
  · intro k entry result returned
    obtain ⟨_, _, answered⟩ := places returned
    exact answered
  · intro j k first second result answer returned again same
    obtain ⟨_, registered, _, present, _⟩ := places returned
    obtain ⟨_, registeredAgain, _, presentAgain, _⟩ := places again
    rw [same] at present
    obtain rfl : first = second := Option.some.inj (present.symm.trans presentAgain)
    exact registered_once reachable registered registeredAgain
  · exact fun w early run id => applied_covered checkpoints early id (covers w early run id)
  · intro w early run j first result returned k second answer new answered
    obtain ⟨origin, registered, positive, present, _⟩ := places answered
    exact returned_before checkpoints early run (covers w early run) returned new registered
      positive present

theorem earlier_answered (checkpoints : Checkpoints c.apply) {order : List LogEntry}
    (linear : Linearizes c u order) (reachable : c.Reachable Plan.clean w)
    (run : c.Later Plan.clean w u) {k : Nat} {entry : LogEntry} {result : Option ρ}
    (returned : w.Returned k entry result) : Answered c order entry result := by
  obtain ⟨node, _, answered⟩ := returned_place checkpoints reachable returned
  exact answered_grows (linear.covers w reachable run node) answered

end Order

/-- Up to any moment of any run, what callers were told and what nodes held is
explained by one order of the commands that respects the order of the calls. -/
theorem calls_linearizable (c : Cluster σ ρ) (checkpoints : Checkpoints c.apply) (u : World σ ρ)
    (reachable : c.Reachable Plan.clean u) : ∃ order, Linearizes c u order := by
  obtain ⟨top, greatest⟩ := highest_commit reachable
  exact ⟨u.committedLog top, longest_linearizes checkpoints reachable greatest⟩

/-- What is read off the result of a call, once it has returned one. -/
def returnedAs {α : Type} (read : ρ → α) : ProposalState ρ → Option α
  | .finished (.ok (some result)) => some (read result)
  | _ => none

theorem returnedAs_returned {α : Type} {read : ρ → α} {u : World σ ρ} {k : Nat} {entry : LogEntry}
    {seen : α} (told : u.proposals[k]?.map (fun call => (call.entry, returnedAs read call.state)) =
      some (entry, some seen)) :
    ∃ result, u.Returned k entry (some result) ∧ read result = seen := by
  obtain ⟨⟨node, _, state⟩, found, same⟩ := Option.map_eq_some_iff.mp told
  obtain ⟨rfl, value⟩ := Prod.mk.inj same
  dsimp only at value
  unfold returnedAs at value
  split at value
  · cases value
    exact ⟨_, ⟨node, found⟩, rfl⟩
  · contradiction

theorem tally_checkpoints : Checkpoints tally.apply := by
  rintro index entry state result _ ⟨⟩
  rfl

/-- A second call, made after the first returned, counts what the first has counted. -/
theorem calls_linearizable_tally : ∃ w u order, tally.Reachable Plan.clean w ∧
    tally.Later Plan.clean w u ∧ w.Returned 0 ⟨2, 1, .command, [7]⟩ (some 2) ∧
    w.proposals.length = 1 ∧ u.Returned 1 ⟨3, 1, .command, [8]⟩ (some 3) ∧
    Linearizes tally u order := by
  obtain ⟨w, u, reachable, run, before, after⟩ := smoothly_reaches tally smooth_clean
    (electFirst ++ [.propose "a" [7], .deliver 4, .respond 4 1, .collect 0])
    [.propose "a" [8], .deliver 8, .respond 8 2, .collect 1]
    (fun w => (w.proposals.length,
      w.proposals[0]?.map fun call => (call.node, call.entry, call.state)))
    (fun u => u.proposals[1]?.map fun call => (call.node, call.entry, call.state))
    (by decide +kernel : _ = some
      (1, some ("a", ⟨2, 1, .command, [7]⟩, .finished (.ok (some 2)))))
    (by decide +kernel : _ = some (some ("a", ⟨3, 1, .command, [8]⟩, .finished (.ok (some 3)))))
  simp only [Prod.mk.injEq, Option.map_eq_some_iff] at before after
  obtain ⟨one, ⟨_, _, _⟩, first, rfl, rfl, rfl⟩ := before
  obtain ⟨⟨_, _, _⟩, second, rfl, rfl, rfl⟩ := after
  obtain ⟨order, linear⟩ := calls_linearizable tally tally_checkpoints u (reachable.trans run)
  exact ⟨w, u, order, reachable, run, ⟨"a", first⟩, one, ⟨"a", second⟩, linear⟩

end QuorumLimiter
