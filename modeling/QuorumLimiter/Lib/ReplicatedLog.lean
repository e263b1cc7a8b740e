import Mathlib.Data.List.Basic
import Mathlib.Data.List.TakeDrop
import QuorumLimiter.Lib.Voting

/-!
Logs replicated by the elected leaders of successive terms. Beside the logs the
state keeps the history the argument needs: the log each voter held when it cast
its ballot, the log each term's leader started from and has reached, and how far
each member has acknowledged that leader's log. The main results are that logs
agree below any entry they share, that an index chosen in one term is part of
every later leader's log, and that a quorum keeps holding it.
-/

namespace ReplicatedLog

open Voting

structure Replicas (N E : Type) extends Booth N where
  log : N → List E
  snap : N → Nat → List E
  start : Nat → List E
  ledger : Nat → List E
  acked : N → Nat → Nat
  chosen : Nat → Nat

def Replicas.init (N E : Type) : Replicas N E where
  toBooth := Booth.init N
  log _ := []
  snap _ _ := []
  start _ := []
  ledger _ := []
  acked _ _ := 0
  chosen _ := 0

section Order

variable {E : Type} (termOf : E → Nat)

def lastTerm (log : List E) : Nat := (log.getLast?.map termOf).getD 0

def UpToDate (candidate voter : List E) : Prop :=
  lastTerm termOf voter < lastTerm termOf candidate ∨
    lastTerm termOf voter = lastTerm termOf candidate ∧ voter.length ≤ candidate.length

theorem upToDate_refl (log : List E) : UpToDate termOf log log := Or.inr ⟨rfl, Nat.le_refl _⟩

theorem lastTerm_append (log : List E) (entry : E) :
    lastTerm termOf (log ++ [entry]) = termOf entry := by
  simp [lastTerm]

theorem lastTerm_getElem? (log : List E) (index : Nat) (entry : E)
    (last : index + 1 = log.length) (found : log[index]? = some entry) :
    lastTerm termOf log = termOf entry := by
  rw [lastTerm, List.getLast?_eq_getElem?, show log.length - 1 = index by omega, found]
  rfl

end Order

theorem take_of_grows {E : Type} (left right : List E) (index : Nat) (grows : left <+: right)
    (bound : index ≤ left.length) : right.take index = left.take index := by
  obtain ⟨rest, rfl⟩ := grows
  rw [List.take_append_of_le_length bound]

theorem getElem?_of_grows {E : Type} (left right : List E) (index : Nat) (entry : E)
    (grows : left <+: right) (found : left[index]? = some entry) : right[index]? = some entry := by
  obtain ⟨rest, rfl⟩ := grows
  have inside : index < left.length := (List.getElem?_eq_some_iff.mp found).1
  rw [List.getElem?_append_left inside, found]

theorem take_shorter {E : Type} (left right : List E) (short long : Nat) (bound : short ≤ long)
    (same : left.take long = right.take long) : left.take short = right.take short := by
  have cut := congrArg (List.take short) same
  simpa [List.take_take, Nat.min_eq_left bound] using cut

theorem length_of_take {E : Type} (left right : List E) (index : Nat)
    (bound : index ≤ right.length) (same : left.take index = right.take index) :
    index ≤ left.length := by
  have lengths := congrArg List.length same
  simp only [List.length_take] at lengths
  omega

theorem getElem?_of_take {E : Type} (left right : List E) (index long : Nat) (bound : index < long)
    (same : left.take long = right.take long) : left[index]? = right[index]? := by
  have cut := congrArg (fun log => log[index]?) same
  simpa [List.getElem?_take, bound] using cut

variable {N E : Type}

def Replicas.elect (s : Replicas N E) (candidate : N) (voters : Finset N) : Replicas N E :=
  { s with
    toBooth := s.toBooth.elect candidate voters
    start := Function.update s.start (s.term candidate) (s.log candidate)
    ledger := Function.update s.ledger (s.term candidate) (s.log candidate) }

def Replicas.choose (s : Replicas N E) (term index : Nat) : Replicas N E :=
  { s with chosen := Function.update s.chosen term (max (s.chosen term) index) }

section Moves

variable [DecidableEq N]

def Replicas.bump (s : Replicas N E) (voter : N) (term : Nat) : Replicas N E :=
  { s with toBooth := s.toBooth.bump voter term }

/-- A ballot is filed with the log its voter held. -/
def Replicas.cast (s : Replicas N E) (voter candidate : N) : Replicas N E :=
  { s with
    toBooth := s.toBooth.cast voter candidate
    snap := fun other term =>
      if other = voter ∧ term = s.term voter then s.log voter else s.snap other term }

def Replicas.stand (s : Replicas N E) (voter : N) (term : Nat) : Replicas N E :=
  (s.bump voter term).cast voter voter

def Replicas.append (s : Replicas N E) (leader : N) (entry : E) : Replicas N E :=
  { s with
    log := Function.update s.log leader (s.log leader ++ [entry])
    ledger := Function.update s.ledger (s.term leader) (s.ledger (s.term leader) ++ [entry])
    acked := fun other term => if other = leader ∧ term = s.term leader then
      (s.log leader).length + 1 else s.acked other term }

def Replicas.adopt (s : Replicas N E) (member : N) (count : Nat) : Replicas N E :=
  { s with log := Function.update s.log member ((s.ledger (s.term member)).take count) }

def Replicas.ack (s : Replicas N E) (member : N) (count : Nat) : Replicas N E :=
  { s with
    acked := fun other term => if other = member ∧ term = s.term member then
      max (s.acked member term) count else s.acked other term }

end Moves

variable (P : Quorums N) (termOf : E → Nat)

/-- Every entry of the log was written by the leader of its term, on top of what
that leader had below it. -/
def Attributed (s : Replicas N E) (log : List E) : Prop :=
  ∀ index entry, log[index]? = some entry →
    (s.elected (termOf entry)).isSome ∧ (s.start (termOf entry)).length ≤ index ∧
      log.take (index + 1) = (s.ledger (termOf entry)).take (index + 1)

/-- Leaders of the terms in the range started from the first `index` entries of `ledger term`. -/
def Carried (s : Replicas N E) (term index : Nat) (range : Nat → Prop) : Prop :=
  ∀ later, term < later → range later → (s.elected later).isSome →
    (s.start later).take index = (s.ledger term).take index

structure Sound (s : Replicas N E) : Prop where
  booth : Voting.Sound P s.toBooth
  ballot_fresh : ∀ voter term candidate, s.ballot voter term = some candidate →
    UpToDate termOf (s.snap candidate term) (s.snap voter term)
  snap_old : ∀ candidate term, s.ballot candidate term = some candidate →
    ∀ entry ∈ s.snap candidate term, termOf entry < term
  start_snap : ∀ term leader voters, s.elected term = some (leader, voters) →
    s.start term = s.snap leader term
  ledger_grows : ∀ term, (s.elected term).isSome → s.start term <+: s.ledger term
  ledger_own : ∀ term index entry, (s.elected term).isSome →
    (s.ledger term)[index]? = some entry → (s.start term).length ≤ index → termOf entry = term
  leader_log : ∀ term leader voters, s.elected term = some (leader, voters) →
    s.term leader = term → s.log leader = s.ledger term
  log_term : ∀ member, ∀ entry ∈ s.log member, termOf entry ≤ s.term member
  log_attributed : ∀ member, Attributed termOf s (s.log member)
  snap_attributed : ∀ voter term candidate, s.ballot voter term = some candidate →
    Attributed termOf s (s.snap voter term)
  ledger_attributed : ∀ term, (s.elected term).isSome → Attributed termOf s (s.ledger term)
  acked_bound : ∀ member term, 0 < s.acked member term →
    term ≤ s.term member ∧ (s.elected term).isSome ∧ s.acked member term ≤ (s.ledger term).length
  log_keeps : ∀ member term index, index ≤ s.acked member term →
    Carried s term index (· ≤ s.term member) →
    (s.log member).take index = (s.ledger term).take index
  snap_keeps : ∀ voter later term index candidate, s.ballot voter later = some candidate →
    term < later → index ≤ s.acked voter term →
    (∀ leader voters, s.elected later = some (leader, voters) → voter ∈ voters) →
    Carried s term index (· < later) →
    (s.snap voter later).take index = (s.ledger term).take index
  chosen_backed : ∀ term, 0 < s.chosen term → (s.elected term).isSome ∧
    (∃ entry, (s.ledger term)[s.chosen term - 1]? = some entry ∧ termOf entry = term) ∧
    ∃ backers, P.isQuorum backers ∧ ∀ member ∈ backers, s.chosen term ≤ s.acked member term

theorem sound_init : Sound P termOf (Replicas.init N E) := by
  have booth := Voting.sound_init P
  constructor <;> simp_all [Replicas.init, Booth.init, Attributed]

/-- Elections are never undone, and a ledger is only ever extended. -/
def Grows (s t : Replicas N E) : Prop :=
  ∀ term leader voters, s.elected term = some (leader, voters) →
    t.elected term = some (leader, voters) ∧ t.start term = s.start term ∧
      s.ledger term <+: t.ledger term

theorem grows_isSome (s t : Replicas N E) (grows : Grows s t) (term : Nat)
    (elected : (s.elected term).isSome) :
    (t.elected term).isSome ∧ t.start term = s.start term ∧ s.ledger term <+: t.ledger term := by
  obtain ⟨⟨leader, voters⟩, found⟩ := Option.isSome_iff_exists.mp elected
  obtain ⟨kept, start, ledger⟩ := grows term leader voters found
  exact ⟨by simp [kept], start, ledger⟩

section Stability

variable {termOf} {s t : Replicas N E}

theorem attributed_take {log : List E} (attributed : Attributed termOf s log) (count : Nat) :
    Attributed termOf s (log.take count) := by
  intro index entry found
  have bound : index < count := by
    by_contra outside
    simp [outside] at found
  have old : log[index]? = some entry := by simpa [List.getElem?_take, bound] using found
  obtain ⟨elected, start, same⟩ := attributed index entry old
  refine ⟨elected, start, ?_⟩
  rw [List.take_take, Nat.min_eq_left (by omega), same]

theorem attributed_grows {log : List E} (grows : Grows s t) (attributed : Attributed termOf s log) :
    Attributed termOf t log := by
  intro index entry found
  obtain ⟨elected, start, same⟩ := attributed index entry found
  obtain ⟨kept, sameStart, extended⟩ := grows_isSome s t grows _ elected
  have inside : index < log.length := (List.getElem?_eq_some_iff.mp found).1
  have reach : index + 1 ≤ (s.ledger (termOf entry)).length :=
    length_of_take _ log _ (by omega) same.symm
  refine ⟨kept, by rw [sameStart]; exact start, ?_⟩
  rw [same, take_of_grows _ _ _ extended reach]

theorem carried_grows {term index : Nat} {before after : Nat → Prop} (grows : Grows s t)
    (carried : Carried t term index after) (range : ∀ later, before later → after later)
    (elected : (s.elected term).isSome) (bound : index ≤ (s.ledger term).length) :
    Carried s term index before := by
  intro later order inside won
  obtain ⟨kept, sameStart, _⟩ := grows_isSome s t grows later won
  obtain ⟨_, _, extended⟩ := grows_isSome s t grows term elected
  rw [← sameStart, carried later order (range later inside) kept, take_of_grows _ _ _ extended bound]

theorem log_keeps_grows (sound : Sound P termOf s) (grows : Grows s t) (member : N)
    (term index : Nat) (range : Nat → Prop) (bound : index ≤ s.acked member term)
    (carried : Carried t term index range) (inside : ∀ later, later ≤ s.term member → range later) :
    (s.log member).take index = (t.ledger term).take index := by
  -- What a member acknowledged stays in its log, in a later state of the history, as long as
  -- its log did not change.
  rcases Nat.eq_zero_or_pos index with zero | positive
  · simp [zero]
  · obtain ⟨_, elected, reach⟩ := sound.acked_bound member term (by omega)
    obtain ⟨_, _, extended⟩ := grows_isSome s t grows term elected
    rw [take_of_grows _ _ _ extended (by omega)]
    exact sound.log_keeps member term index bound
      (carried_grows grows carried inside elected (by omega))

theorem snap_keeps_grows (sound : Sound P termOf s) (grows : Grows s t) (voter candidate : N)
    (later term index : Nat) (cast : s.ballot voter later = some candidate) (order : term < later)
    (bound : index ≤ s.acked voter term)
    (elector : ∀ leader voters, s.elected later = some (leader, voters) → voter ∈ voters)
    (carried : Carried t term index (· < later)) :
    (s.snap voter later).take index = (t.ledger term).take index := by
  rcases Nat.eq_zero_or_pos index with zero | positive
  · simp [zero]
  · obtain ⟨_, elected, reach⟩ := sound.acked_bound voter term (by omega)
    obtain ⟨_, _, extended⟩ := grows_isSome s t grows term elected
    rw [take_of_grows _ _ _ extended (by omega)]
    exact sound.snap_keeps voter later term index candidate cast order bound elector
      (carried_grows grows carried (fun _ inside => inside) elected (by omega))

theorem chosen_backed_grows (sound : Sound P termOf s) (grows : Grows s t)
    (acked : ∀ member term, s.acked member term ≤ t.acked member term) (term : Nat)
    (positive : 0 < s.chosen term) : (t.elected term).isSome ∧
    (∃ entry, (t.ledger term)[s.chosen term - 1]? = some entry ∧ termOf entry = term) ∧
    ∃ backers, P.isQuorum backers ∧ ∀ member ∈ backers, s.chosen term ≤ t.acked member term := by
  obtain ⟨elected, ⟨entry, found, own⟩, backers, quorum, backed⟩ :=
    sound.chosen_backed term positive
  obtain ⟨kept, _, extended⟩ := grows_isSome s t grows term elected
  refine ⟨kept, ⟨entry, ?_, own⟩, backers, quorum, ?_⟩
  · exact getElem?_of_grows _ _ _ _ extended found
  · exact fun member belongs => Nat.le_trans (backed member belongs) (acked member term)

end Stability

section Preservation

variable {P termOf} {s : Replicas N E}

theorem grows_refl (s : Replicas N E) : Grows s s :=
  fun _ _ _ found => ⟨found, rfl, List.prefix_rfl⟩

theorem start_old (sound : Sound P termOf s) (term : Nat) (elected : (s.elected term).isSome) :
    ∀ entry ∈ s.start term, termOf entry < term := by
  obtain ⟨⟨leader, voters⟩, found⟩ := Option.isSome_iff_exists.mp elected
  obtain ⟨_, member, ballots⟩ := sound.booth.elected_quorum term leader voters found
  rw [sound.start_snap term leader voters found]
  exact sound.snap_old leader term (ballots leader member)

theorem ledger_term (sound : Sound P termOf s) (term : Nat) (elected : (s.elected term).isSome) :
    ∀ entry ∈ s.ledger term, termOf entry ≤ term := by
  intro entry member
  obtain ⟨index, found⟩ := List.mem_iff_getElem?.mp member
  by_cases own : (s.start term).length ≤ index
  · exact Nat.le_of_eq (sound.ledger_own term index entry elected found own)
  · have inside : index < (s.start term).length := by omega
    have same := take_of_grows _ _ _ (sound.ledger_grows term elected) (Nat.le_refl _)
    have early : (s.start term)[index]? = some entry := by
      rw [← getElem?_of_take (s.ledger term) (s.start term) index _ inside same]
      exact found
    exact Nat.le_of_lt (start_old sound term elected entry (List.mem_of_getElem? early))

theorem ledger_carried (sound : Sound P termOf s) (term later index : Nat)
    (elected : (s.elected later).isSome) (bound : index ≤ (s.ledger term).length)
    (same : (s.start later).take index = (s.ledger term).take index) :
    (s.ledger later).take index = (s.ledger term).take index := by
  have reach : index ≤ (s.start later).length := length_of_take _ _ _ bound same
  rw [take_of_grows _ _ _ (sound.ledger_grows later elected) reach, same]

variable [DecidableEq N]

theorem sound_bump (sound : Sound P termOf s) (voter : N) (term : Nat)
    (later : s.term voter < term) : Sound P termOf (s.bump voter term) := by
  have grows : Grows s (s.bump voter term) := grows_refl s
  have raised : ∀ member, s.term member ≤ (s.bump voter term).term member := by
    intro member
    by_cases same : member = voter
    · subst member
      simp only [Replicas.bump, Booth.bump, Function.update_self]
      omega
    · simp [Replicas.bump, Booth.bump, same]
  constructor
  case booth => exact Voting.sound_bump P s.toBooth voter term sound.booth later
  case ballot_fresh => exact sound.ballot_fresh
  case snap_old => exact sound.snap_old
  case start_snap => exact sound.start_snap
  case ledger_grows => exact sound.ledger_grows
  case ledger_own => exact sound.ledger_own
  case leader_log =>
    intro won leader voters elected current
    have bound := Voting.elected_term P s.toBooth sound.booth won leader voters elected
    refine sound.leader_log won leader voters elected ?_
    by_cases same : leader = voter
    · subst leader
      simp only [Replicas.bump, Booth.bump, Function.update_self] at current
      omega
    · simpa [Replicas.bump, Booth.bump, same] using current
  case log_term =>
    intro member entry belongs
    exact Nat.le_trans (sound.log_term member entry belongs) (raised member)
  case log_attributed => exact sound.log_attributed
  case snap_attributed => exact sound.snap_attributed
  case ledger_attributed => exact sound.ledger_attributed
  case acked_bound =>
    intro member old positive
    obtain ⟨bound, rest⟩ := sound.acked_bound member old positive
    exact ⟨Nat.le_trans bound (raised member), rest⟩
  case log_keeps =>
    intro member old index bound carried
    exact log_keeps_grows P sound grows member old index _ bound carried
      (fun _ inside => Nat.le_trans inside (raised member))
  case snap_keeps => exact sound.snap_keeps
  case chosen_backed => exact sound.chosen_backed

theorem sound_cast (sound : Sound P termOf s) (voter candidate : N)
    (fresh : s.ballot voter (s.term voter) = none)
    (standing : s.ballot candidate (s.term voter) = some candidate ∧
        UpToDate termOf (s.snap candidate (s.term voter)) (s.log voter) ∨
      candidate = voter ∧ ∀ entry ∈ s.log voter, termOf entry < s.term voter) :
    Sound P termOf (s.cast voter candidate) := by
  -- Filing a ballot of the voter's current term, for itself or for a candidate whose log is at
  -- least as up to date.
  have grows : Grows s (s.cast voter candidate) := grows_refl s
  have other : ∀ member term chosen, s.ballot member term = some chosen →
      ¬(member = voter ∧ term = s.term voter) := by
    rintro member term chosen found ⟨rfl, rfl⟩
    simp [fresh] at found
  constructor
  case booth =>
    exact Voting.sound_cast P s.toBooth voter candidate sound.booth fresh
      (standing.imp (fun facts => facts.1) (fun facts => facts.1))
  case ballot_fresh =>
    intro member term chosen found
    simp only [Replicas.cast, Booth.cast] at found ⊢
    by_cases same : member = voter ∧ term = s.term voter
    · simp only [same, and_self, if_true, Option.some.injEq] at found ⊢
      subst chosen
      rcases standing with ⟨stood, newer⟩ | ⟨self, _⟩
      · have apart := other candidate _ candidate stood
        simp only [and_true] at apart
        simpa [apart] using newer
      · simpa [self] using upToDate_refl termOf (s.log voter)
    · simp only [same, if_false] at found ⊢
      have self := sound.booth.ballot_self member term chosen found
      simpa [other chosen term chosen self] using sound.ballot_fresh member term chosen found
  case snap_old =>
    intro member term found
    simp only [Replicas.cast, Booth.cast] at found ⊢
    by_cases same : member = voter ∧ term = s.term voter
    · simp only [same, and_self, if_true, Option.some.injEq] at found ⊢
      subst candidate
      rcases standing with ⟨stood, _⟩ | ⟨_, old⟩
      · simp [fresh] at stood
      · exact old
    · simp only [same, if_false] at found ⊢
      exact sound.snap_old member term found
  case start_snap =>
    intro term leader voters elected
    obtain ⟨_, member, ballots⟩ := sound.booth.elected_quorum term leader voters elected
    have apart := other leader term leader (ballots leader member)
    simpa [Replicas.cast, apart] using sound.start_snap term leader voters elected
  case ledger_grows => exact sound.ledger_grows
  case ledger_own => exact sound.ledger_own
  case leader_log => exact sound.leader_log
  case log_term => exact sound.log_term
  case log_attributed => exact sound.log_attributed
  case snap_attributed =>
    intro member term chosen found
    simp only [Replicas.cast, Booth.cast] at found ⊢
    by_cases same : member = voter ∧ term = s.term voter
    · simp only [same, and_self, if_true]
      exact sound.log_attributed voter
    · simp only [same, if_false] at found ⊢
      exact sound.snap_attributed member term chosen found
  case ledger_attributed => exact sound.ledger_attributed
  case acked_bound => exact sound.acked_bound
  case log_keeps => exact sound.log_keeps
  case snap_keeps =>
    intro member later term index chosen found order bound elector carried
    simp only [Replicas.cast, Booth.cast] at found elector ⊢
    by_cases same : member = voter ∧ later = s.term voter
    · obtain ⟨rfl, rfl⟩ := same
      simp only [and_self, if_true]
      refine sound.log_keeps member term index bound ?_
      intro between after inside won
      refine carried between after ?_ won
      -- A leader of this very term would have counted the ballot that is only now cast.
      refine Nat.lt_of_le_of_ne inside ?_
      rintro rfl
      obtain ⟨⟨leader, voters⟩, elected⟩ := Option.isSome_iff_exists.mp won
      obtain ⟨_, _, ballots⟩ := sound.booth.elected_quorum _ leader voters elected
      have cast := ballots member (elector leader voters elected)
      rw [fresh] at cast
      contradiction
    · simp only [same, if_false] at found ⊢
      exact sound.snap_keeps member later term index chosen found order bound elector carried
  case chosen_backed => exact sound.chosen_backed

theorem sound_stand (sound : Sound P termOf s) (voter : N) (term : Nat)
    (later : s.term voter < term) : Sound P termOf (s.stand voter term) := by
  refine sound_cast (sound_bump sound voter term later) voter voter ?_ (Or.inr ⟨rfl, ?_⟩)
  · cases found : (s.bump voter term).ballot voter ((s.bump voter term).term voter) with
    | none => rfl
    | some candidate =>
        have bound := sound.booth.ballot_term voter _ candidate found
        simp only [Replicas.bump, Booth.bump, Function.update_self] at bound
        omega
  · intro entry belongs
    have bound := sound.log_term voter entry belongs
    simp only [Replicas.bump, Booth.bump, Function.update_self]
    omega

omit [DecidableEq N] in
theorem grows_elect (candidate : N) (voters : Finset N)
    (vacant : s.elected (s.term candidate) = none) : Grows s (s.elect candidate voters) := by
  intro term leader electors found
  have apart : term ≠ s.term candidate := by
    rintro rfl
    rw [vacant] at found
    contradiction
  simp [Replicas.elect, Booth.elect, apart, found]

omit [DecidableEq N] in
theorem sound_elect (sound : Sound P termOf s) (candidate : N) (voters : Finset N)
    (vacant : s.elected (s.term candidate) = none) (quorum : P.isQuorum voters)
    (member : candidate ∈ voters)
    (ballots : ∀ voter ∈ voters, s.ballot voter (s.term candidate) = some candidate)
    (unchanged : s.snap candidate (s.term candidate) = s.log candidate) :
    Sound P termOf (s.elect candidate voters) := by
  have before : ∀ term, term ≠ s.term candidate →
      (s.elect candidate voters).elected term = s.elected term ∧
      (s.elect candidate voters).start term = s.start term ∧
      (s.elect candidate voters).ledger term = s.ledger term := by
    intro term apart
    simp [Replicas.elect, Booth.elect, apart]
  have now : (s.elect candidate voters).elected (s.term candidate) = some (candidate, voters) ∧
      (s.elect candidate voters).start (s.term candidate) = s.log candidate ∧
      (s.elect candidate voters).ledger (s.term candidate) = s.log candidate := by
    simp [Replicas.elect, Booth.elect]
  have grows := grows_elect candidate voters vacant
  constructor
  case booth => exact Voting.sound_elect P s.toBooth candidate voters sound.booth quorum member ballots
  case ballot_fresh => exact sound.ballot_fresh
  case snap_old => exact sound.snap_old
  case start_snap =>
    intro term leader electors found
    by_cases same : term = s.term candidate
    · subst term
      rw [now.1, Option.some.injEq, Prod.mk.injEq] at found
      obtain ⟨rfl, rfl⟩ := found
      rw [now.2.1]
      exact unchanged.symm
    · rw [(before term same).1] at found
      rw [(before term same).2.1]
      exact sound.start_snap term leader electors found
  case ledger_grows =>
    intro term won
    by_cases same : term = s.term candidate
    · subst term
      rw [now.2.1, now.2.2]
    · obtain ⟨kept, start, ledger⟩ := before term same
      rw [start, ledger]
      exact sound.ledger_grows term (by rwa [kept] at won)
  case ledger_own =>
    intro term index entry won found own
    by_cases same : term = s.term candidate
    · subst term
      rw [now.2.2] at found
      rw [now.2.1] at own
      have inside := (List.getElem?_eq_some_iff.mp found).1
      omega
    · obtain ⟨kept, start, ledger⟩ := before term same
      rw [kept] at won
      rw [ledger] at found
      rw [start] at own
      exact sound.ledger_own term index entry won found own
  case leader_log =>
    intro term leader electors found current
    by_cases same : term = s.term candidate
    · rw [same] at found ⊢
      rw [now.1, Option.some.injEq, Prod.mk.injEq] at found
      obtain ⟨rfl, rfl⟩ := found
      exact now.2.2.symm
    · obtain ⟨kept, _, ledger⟩ := before term same
      rw [kept] at found
      rw [ledger]
      exact sound.leader_log term leader electors found current
  case log_term => exact sound.log_term
  case log_attributed => exact fun other => attributed_grows grows (sound.log_attributed other)
  case snap_attributed =>
    intro voter term chosen found
    exact attributed_grows grows (sound.snap_attributed voter term chosen found)
  case ledger_attributed =>
    intro term won
    by_cases same : term = s.term candidate
    · subst term
      rw [now.2.2]
      exact attributed_grows grows (sound.log_attributed candidate)
    · obtain ⟨kept, _, ledger⟩ := before term same
      rw [ledger]
      exact attributed_grows grows (sound.ledger_attributed term (by rwa [kept] at won))
  case acked_bound =>
    intro other term positive
    obtain ⟨bound, won, reach⟩ := sound.acked_bound other term positive
    obtain ⟨kept, _, extended⟩ := grows_isSome _ _ grows term won
    exact ⟨bound, kept, Nat.le_trans reach extended.length_le⟩
  case log_keeps =>
    intro other term index bound carried
    exact log_keeps_grows P sound grows other term index _ bound carried (fun _ inside => inside)
  case snap_keeps =>
    intro voter later term index chosen found order bound elector carried
    refine snap_keeps_grows P sound grows voter chosen later term index found order bound ?_ carried
    intro leader electors elected
    exact elector leader electors (grows later leader electors elected).1
  case chosen_backed =>
    exact fun term => chosen_backed_grows P sound grows (fun _ _ => Nat.le_refl _) term

theorem grows_append (leader : N) (entry : E) : Grows s (s.append leader entry) := by
  intro term other electors found
  refine ⟨found, rfl, ?_⟩
  by_cases same : term = s.term leader
  · simp [Replicas.append, same]
  · simp [Replicas.append, same]

theorem acked_append (sound : Sound P termOf s) (leader : N) (voters : Finset N) (entry : E)
    (elected : s.elected (s.term leader) = some (leader, voters)) (member : N) (term : Nat) :
    s.acked member term ≤ (s.append leader entry).acked member term := by
  simp only [Replicas.append]
  split
  · rename_i same
    rcases Nat.eq_zero_or_pos (s.acked member term) with zero | positive
    · omega
    · obtain ⟨_, _, reach⟩ := sound.acked_bound member term positive
      rw [same.1, same.2] at reach ⊢
      rw [sound.leader_log _ leader voters elected rfl]
      omega
  · exact Nat.le_refl _

theorem acked_ack (member : N) (count : Nat) (other : N) (term : Nat) :
    s.acked other term ≤ (s.ack member count).acked other term := by
  simp only [Replicas.ack]
  split
  · rename_i same
    rw [same.1]
    exact Nat.le_max_left _ _
  · exact Nat.le_refl _

theorem append_log (leader : N) (entry : E) :
    (s.append leader entry).log leader = s.log leader ++ [entry] := by
  simp [Replicas.append]

theorem append_log_ne {leader member : N} (entry : E) (apart : member ≠ leader) :
    (s.append leader entry).log member = s.log member := by
  simp [Replicas.append, apart]

theorem append_ledger (leader : N) (entry : E) :
    (s.append leader entry).ledger (s.term leader) = s.ledger (s.term leader) ++ [entry] := by
  simp [Replicas.append]

theorem append_ledger_ne {leader : N} {term : Nat} (entry : E) (apart : term ≠ s.term leader) :
    (s.append leader entry).ledger term = s.ledger term := by
  simp [Replicas.append, apart]

theorem append_acked_ne {leader member : N} {term : Nat} (entry : E)
    (apart : ¬(member = leader ∧ term = s.term leader)) :
    (s.append leader entry).acked member term = s.acked member term := by
  simp [Replicas.append, apart]

/-- The entry a leader appends is attributed to its own term. -/
theorem attributed_append (sound : Sound P termOf s) (leader : N) (voters : Finset N) (entry : E)
    (elected : s.elected (s.term leader) = some (leader, voters))
    (own : termOf entry = s.term leader) :
    Attributed termOf (s.append leader entry) (s.log leader ++ [entry]) := by
  have won : (s.elected (s.term leader)).isSome := by simp [elected]
  have current : s.log leader = s.ledger (s.term leader) :=
    sound.leader_log _ leader voters elected rfl
  intro index found member
  by_cases last : index < (s.log leader).length
  · rw [List.getElem?_append_left last] at member
    obtain ⟨kept, start, same⟩ := attributed_grows (grows_append leader entry)
      (sound.log_attributed leader) index found member
    refine ⟨kept, start, ?_⟩
    rw [List.take_append_of_le_length (by omega), same]
  · have bound := (List.getElem?_eq_some_iff.mp member).1
    simp only [List.length_append, List.length_cons, List.length_nil] at bound
    have position : index = (s.log leader).length := by omega
    subst index
    simp only [List.getElem?_concat_length, Option.some.injEq] at member
    subst found
    rw [own]
    refine ⟨won, ?_, ?_⟩
    · rw [current]
      exact (sound.ledger_grows _ won).length_le
    · rw [append_ledger, current]

theorem log_keeps_append (sound : Sound P termOf s) (leader : N) (entry : E) (member : N)
    (term index : Nat) (old : index ≤ s.acked member term)
    (carried : Carried (s.append leader entry) term index (· ≤ s.term member)) :
    ((s.append leader entry).log member).take index =
      ((s.append leader entry).ledger term).take index := by
  have grows := grows_append (s := s) leader entry
  have kept := log_keeps_grows P sound grows member term index _ old carried
    (fun _ inside => inside)
  by_cases self : member = leader
  · subst member
    rw [append_log, ← kept]
    rcases Nat.eq_zero_or_pos index with zero | positive
    · simp [zero]
    · obtain ⟨_, elect, reach⟩ := sound.acked_bound leader term (by omega)
      have extended := (grows_isSome _ _ grows term elect).2.2.length_le
      have inside : index ≤ (s.log leader).length := length_of_take _ _ _ (by omega) kept
      rw [List.take_append_of_le_length inside]
  · rw [append_log_ne entry self]
    exact kept

theorem sound_append (sound : Sound P termOf s) (leader : N) (voters : Finset N) (entry : E)
    (elected : s.elected (s.term leader) = some (leader, voters))
    (own : termOf entry = s.term leader) : Sound P termOf (s.append leader entry) := by
  have won : (s.elected (s.term leader)).isSome := by simp [elected]
  have current : s.log leader = s.ledger (s.term leader) :=
    sound.leader_log _ leader voters elected rfl
  have grows := grows_append (s := s) leader entry
  have acked := acked_append sound leader voters entry elected
  have attributed := attributed_append sound leader voters entry elected own
  constructor
  case booth => exact sound.booth
  case ballot_fresh => exact sound.ballot_fresh
  case snap_old => exact sound.snap_old
  case start_snap => exact sound.start_snap
  case ledger_grows =>
    intro term elect
    exact (sound.ledger_grows term elect).trans (grows_isSome _ _ grows term elect).2.2
  case ledger_own =>
    intro term index found elect member start
    by_cases same : term = s.term leader
    · subst term
      rw [append_ledger] at member
      by_cases last : index < (s.ledger (s.term leader)).length
      · rw [List.getElem?_append_left last] at member
        exact sound.ledger_own _ index found elect member start
      · rw [List.getElem?_append_right (by omega)] at member
        obtain ⟨_, same⟩ := List.getElem?_eq_some_iff.mp member
        simp only [List.getElem_singleton] at same
        rw [← same, own]
    · rw [append_ledger_ne entry same] at member
      exact sound.ledger_own term index found elect member start
  case leader_log =>
    intro term other electors found present
    by_cases same : term = s.term leader
    · rw [same] at found ⊢
      have alike : other = leader := by
        rw [show (s.append leader entry).elected = s.elected from rfl, elected] at found
        simp only [Option.some.injEq, Prod.mk.injEq] at found
        exact found.1.symm
      rw [alike, append_log, append_ledger, current]
    · have apart : other ≠ leader := by
        rintro rfl
        exact same present.symm
      rw [append_log_ne entry apart, append_ledger_ne entry same]
      exact sound.leader_log term other electors found present
  case log_term =>
    intro member found belongs
    by_cases same : member = leader
    · subst member
      rw [append_log, List.mem_append, List.mem_singleton] at belongs
      rcases belongs with old | rfl
      · exact sound.log_term leader found old
      · exact Nat.le_of_eq own
    · rw [append_log_ne entry same] at belongs
      exact sound.log_term member found belongs
  case log_attributed =>
    intro member
    by_cases same : member = leader
    · subst member
      rw [append_log]
      exact attributed
    · rw [append_log_ne entry same]
      exact attributed_grows grows (sound.log_attributed member)
  case snap_attributed =>
    intro voter term chosen found
    exact attributed_grows grows (sound.snap_attributed voter term chosen found)
  case ledger_attributed =>
    intro term elect
    by_cases same : term = s.term leader
    · rw [same, append_ledger, ← current]
      exact attributed
    · rw [append_ledger_ne entry same]
      exact attributed_grows grows (sound.ledger_attributed term elect)
  case acked_bound =>
    intro member term positive
    by_cases same : member = leader ∧ term = s.term leader
    · obtain ⟨rfl, rfl⟩ := same
      refine ⟨Nat.le_refl _, won, ?_⟩
      rw [append_ledger, ← current]
      simp [Replicas.append]
    · rw [append_acked_ne entry same] at positive ⊢
      obtain ⟨bound, elect, reach⟩ := sound.acked_bound member term positive
      obtain ⟨kept, _, extended⟩ := grows_isSome _ _ grows term elect
      exact ⟨bound, kept, Nat.le_trans reach extended.length_le⟩
  case log_keeps =>
    intro member term index bound carried
    by_cases same : member = leader ∧ term = s.term leader
    · rw [same.1, same.2, append_log, append_ledger, current]
    · rw [append_acked_ne entry same] at bound
      exact log_keeps_append sound leader entry member term index bound carried
  case snap_keeps =>
    intro voter later term index chosen found order bound elector carried
    have reached := sound.booth.ballot_term voter later chosen found
    have apart : ¬(voter = leader ∧ term = s.term leader) := by
      rintro ⟨rfl, rfl⟩
      omega
    rw [append_acked_ne entry apart] at bound
    exact snap_keeps_grows P sound grows voter chosen later term index found order bound elector
      carried
  case chosen_backed => exact fun term => chosen_backed_grows P sound grows acked term

theorem sound_adopt (sound : Sound P termOf s) (member leader : N) (voters : Finset N)
    (count : Nat) (elected : s.elected (s.term member) = some (leader, voters))
    (apart : leader ≠ member)
    (differs : (s.log member).take count ≠ (s.ledger (s.term member)).take count) :
    Sound P termOf (s.adopt member count) := by
  have won : (s.elected (s.term member)).isSome := by simp [elected]
  have grows : Grows s (s.adopt member count) := grows_refl s
  have sameLog : ∀ other, other ≠ member → (s.adopt member count).log other = s.log other := by
    intro other different
    simp [Replicas.adopt, different]
  have newLog : (s.adopt member count).log member = (s.ledger (s.term member)).take count := by
    simp [Replicas.adopt]
  constructor
  case booth => exact sound.booth
  case ballot_fresh => exact sound.ballot_fresh
  case snap_old => exact sound.snap_old
  case start_snap => exact sound.start_snap
  case ledger_grows => exact sound.ledger_grows
  case ledger_own => exact sound.ledger_own
  case leader_log =>
    intro term other electors found current
    have different : other ≠ member := by
      rintro rfl
      rw [← current] at found
      change s.elected (s.term other) = _ at found
      rw [elected] at found
      simp only [Option.some.injEq, Prod.mk.injEq] at found
      exact apart found.1
    rw [sameLog other different]
    exact sound.leader_log term other electors found current
  case log_term =>
    intro other entry belongs
    by_cases same : other = member
    · subst other
      rw [newLog] at belongs
      exact ledger_term sound _ won entry (List.mem_of_mem_take belongs)
    · rw [sameLog other same] at belongs
      exact sound.log_term other entry belongs
  case log_attributed =>
    intro other
    by_cases same : other = member
    · subst other
      rw [newLog]
      exact attributed_take (attributed_grows grows (sound.ledger_attributed _ won)) count
    · rw [sameLog other same]
      exact sound.log_attributed other
  case snap_attributed => exact sound.snap_attributed
  case ledger_attributed => exact sound.ledger_attributed
  case acked_bound => exact sound.acked_bound
  case log_keeps =>
    intro other term index bound carried
    change index ≤ s.acked other term at bound
    by_cases same : other = member
    · subst other
      rw [newLog]
      have kept := sound.log_keeps member term index bound carried
      rcases Nat.eq_zero_or_pos index with zero | positive
      · simp [zero]
      · obtain ⟨order, _, reach⟩ := sound.acked_bound member term (by omega)
        -- The ledger being adopted already repeats what the member acknowledged.
        have repeats : (s.ledger (s.term member)).take index = (s.ledger term).take index := by
          rcases Nat.eq_or_lt_of_le order with equal | less
          · rw [← equal]
          · exact ledger_carried sound term _ index won (by omega)
              (carried _ less (Nat.le_refl _) won)
        have shorter : index < count := by
          by_contra short
          exact differs (take_shorter _ _ count index (by omega) (kept.trans repeats.symm))
        rw [List.take_take, Nat.min_eq_left (by omega), repeats]
        rfl
    · rw [sameLog other same]
      exact sound.log_keeps other term index bound carried
  case snap_keeps => exact sound.snap_keeps
  case chosen_backed => exact sound.chosen_backed

theorem sound_ack (sound : Sound P termOf s) (member : N) (count : Nat)
    (won : (s.elected (s.term member)).isSome)
    (bound : count ≤ (s.ledger (s.term member)).length)
    (agrees : (s.log member).take count = (s.ledger (s.term member)).take count) :
    Sound P termOf (s.ack member count) := by
  have grows : Grows s (s.ack member count) := grows_refl s
  have acked := acked_ack (s := s) member count
  have origin : ∀ other term index, index ≤ (s.ack member count).acked other term →
      index ≤ s.acked other term ∨ other = member ∧ term = s.term member ∧ index ≤ count := by
    intro other term index below
    simp only [Replicas.ack] at below
    split at below
    · rename_i same
      rw [same.1]
      rcases Nat.le_total (s.acked member term) count with le | le
      · rw [Nat.max_eq_right le] at below
        exact Or.inr ⟨rfl, same.2, below⟩
      · rw [Nat.max_eq_left le] at below
        exact Or.inl below
    · exact Or.inl below
  constructor
  case booth => exact sound.booth
  case ballot_fresh => exact sound.ballot_fresh
  case snap_old => exact sound.snap_old
  case start_snap => exact sound.start_snap
  case ledger_grows => exact sound.ledger_grows
  case ledger_own => exact sound.ledger_own
  case leader_log => exact sound.leader_log
  case log_term => exact sound.log_term
  case log_attributed => exact sound.log_attributed
  case snap_attributed => exact sound.snap_attributed
  case ledger_attributed => exact sound.ledger_attributed
  case acked_bound =>
    intro other term positive
    rcases origin other term _ (Nat.le_refl _) with old | ⟨rfl, rfl, new⟩
    · obtain ⟨order, elect, reach⟩ := sound.acked_bound other term (Nat.lt_of_lt_of_le positive old)
      exact ⟨order, elect, Nat.le_trans old reach⟩
    · exact ⟨Nat.le_refl _, won, Nat.le_trans new bound⟩
  case log_keeps =>
    intro other term index below carried
    rcases origin other term index below with old | ⟨rfl, rfl, new⟩
    · exact sound.log_keeps other term index old carried
    · exact take_shorter _ _ index count new agrees
  case snap_keeps =>
    intro voter later term index candidate found order below elector carried
    rcases origin voter term index below with old | ⟨rfl, rfl, _⟩
    · exact sound.snap_keeps voter later term index candidate found order old elector carried
    · have reached := sound.booth.ballot_term voter later candidate found
      change s.term voter < later at order
      omega
  case chosen_backed => exact fun term => chosen_backed_grows P sound grows acked term

omit [DecidableEq N] in
theorem sound_choose (sound : Sound P termOf s) (term index : Nat) (entry : E)
    (backers : Finset N) (won : (s.elected term).isSome)
    (found : (s.ledger term)[index]? = some entry) (own : termOf entry = term)
    (quorum : P.isQuorum backers)
    (backed : ∀ member ∈ backers, index + 1 ≤ s.acked member term) :
    Sound P termOf (s.choose term (index + 1)) := by
  obtain ⟨booth, ballot_fresh, snap_old, start_snap, ledger_grows, ledger_own, leader_log, log_term,
    log_attributed, snap_attributed, ledger_attributed, acked_bound, log_keeps, snap_keeps,
    chosen_backed⟩ := sound
  refine ⟨booth, ballot_fresh, snap_old, start_snap, ledger_grows, ledger_own, leader_log, log_term,
    log_attributed, snap_attributed, ledger_attributed, acked_bound, log_keeps, snap_keeps, ?_⟩
  intro other positive
  by_cases same : other = term
  · subst other
    simp only [Replicas.choose, Function.update_self] at positive ⊢
    rcases Nat.le_total (s.chosen term) (index + 1) with le | le
    · rw [Nat.max_eq_right le]
      exact ⟨won, ⟨entry, found, own⟩, backers, quorum, backed⟩
    · rw [Nat.max_eq_left le]
      exact chosen_backed term (by omega)
  · simp only [Replicas.choose, Function.update_of_ne same] at positive ⊢
    exact chosen_backed other positive

end Preservation

section Results

variable {P termOf} {s : Replicas N E}

/-- Where a log holds an entry of a term, every log with an entry of that term there
or above agrees with it up to there: one leader wrote them all. -/
theorem attributed_below {left right : List E} (leftWritten : Attributed termOf s left)
    (rightWritten : Attributed termOf s right) (low high : Nat) (order : low ≤ high)
    (first second : E) (leftFound : left[low]? = some first)
    (rightFound : right[high]? = some second) (same : termOf first = termOf second) :
    left.take (low + 1) = right.take (low + 1) := by
  have above := (rightWritten high second rightFound).2.2
  rw [(leftWritten low first leftFound).2.2, same]
  exact (take_shorter _ _ (low + 1) (high + 1) (by omega) above).symm

theorem attributed_match {left right : List E} (leftWritten : Attributed termOf s left)
    (rightWritten : Attributed termOf s right) (index : Nat) (first second : E)
    (leftFound : left[index]? = some first) (rightFound : right[index]? = some second)
    (same : termOf first = termOf second) : left.take (index + 1) = right.take (index + 1) :=
  attributed_below leftWritten rightWritten index index (Nat.le_refl _) first second leftFound
    rightFound same

theorem log_matching (sound : Sound P termOf s) (left right : N) (index : Nat) (first second : E)
    (leftFound : (s.log left)[index]? = some first)
    (rightFound : (s.log right)[index]? = some second) (same : termOf first = termOf second) :
    (s.log left).take (index + 1) = (s.log right).take (index + 1) :=
  attributed_match (sound.log_attributed left) (sound.log_attributed right) index first second
    leftFound rightFound same

theorem ledger_sorted (sound : Sound P termOf s) (term first second : Nat) (early late : E)
    (won : (s.elected term).isSome) (order : first ≤ second)
    (earlyFound : (s.ledger term)[first]? = some early)
    (lateFound : (s.ledger term)[second]? = some late) : termOf early ≤ termOf late := by
  obtain ⟨_, start, same⟩ := sound.ledger_attributed term won second late lateFound
  have early' : (s.ledger (termOf late))[first]? = some early := by
    rw [← getElem?_of_take _ _ first (second + 1) (by omega) same]
    exact earlyFound
  obtain ⟨wonLate, _, _⟩ := sound.ledger_attributed term won second late lateFound
  exact ledger_term sound _ wonLate early (List.mem_of_getElem? early')

theorem attributed_sorted (sound : Sound P termOf s) (log : List E)
    (written : Attributed termOf s log) (first second : Nat) (early late : E)
    (order : first ≤ second) (earlyFound : log[first]? = some early)
    (lateFound : log[second]? = some late) : termOf early ≤ termOf late := by
  obtain ⟨won, _, same⟩ := written second late lateFound
  refine ledger_sorted sound (termOf late) first second early late won order ?_ ?_
  · rw [← getElem?_of_take _ _ first (second + 1) (by omega) same]
    exact earlyFound
  · rw [← getElem?_of_take _ _ second (second + 1) (by omega) same]
    exact lateFound

theorem lastTerm_le (sound : Sound P termOf s) (log : List E)
    (written : Attributed termOf s log) (index : Nat) (entry : E)
    (found : log[index]? = some entry) : termOf entry ≤ lastTerm termOf log := by
  have inside := (List.getElem?_eq_some_iff.mp found).1
  obtain ⟨last, lastFound⟩ : ∃ last, log[log.length - 1]? = some last :=
    ⟨_, List.getElem?_eq_getElem (by omega)⟩
  rw [lastTerm_getElem? termOf log (log.length - 1) last (by omega) lastFound]
  exact attributed_sorted sound log written index _ entry last (by omega) found lastFound

theorem upToDate_carries (sound : Sound P termOf s) (candidate voter : List E)
    (candidateWritten : Attributed termOf s candidate) (voterWritten : Attributed termOf s voter)
    (newer : UpToDate termOf candidate voter) (term later index : Nat) (entry : E)
    (bounded : ∀ other ∈ candidate, termOf other < later)
    (chosen : (s.ledger term)[index]? = some entry) (own : termOf entry = term)
    (between : Carried s term (index + 1) (· < later))
    (held : voter.take (index + 1) = (s.ledger term).take (index + 1)) :
    candidate.take (index + 1) = (s.ledger term).take (index + 1) := by
  -- A log at least as up to date as one that holds a chosen prefix holds it too, provided the
  -- leaders of all terms in between do.
  have reach : index + 1 ≤ (s.ledger term).length := (List.getElem?_eq_some_iff.mp chosen).1
  have voterLength : index + 1 ≤ voter.length := length_of_take _ _ _ reach held
  have voterFound : voter[index]? = some entry := by
    rw [getElem?_of_take _ _ index (index + 1) (by omega) held]
    exact chosen
  have voterTerm : term ≤ lastTerm termOf voter :=
    own ▸ lastTerm_le sound voter voterWritten index entry voterFound
  obtain ⟨lastVoter, lastVoterFound⟩ : ∃ last, voter[voter.length - 1]? = some last :=
    ⟨_, List.getElem?_eq_getElem (by omega)⟩
  have voterLast := lastTerm_getElem? termOf voter (voter.length - 1) lastVoter (by omega)
    lastVoterFound
  obtain ⟨wonVoter, startVoter, _⟩ := voterWritten _ _ lastVoterFound
  have nonempty : candidate ≠ [] := by
    rintro rfl
    rcases newer with greater | ⟨_, longer⟩
    · simp [lastTerm] at greater
    · simp only [List.length_nil] at longer
      omega
  have positive : 0 < candidate.length := List.length_pos_iff.mpr nonempty
  obtain ⟨last, lastFound⟩ : ∃ last, candidate[candidate.length - 1]? = some last :=
    ⟨_, List.getElem?_eq_getElem (by omega)⟩
  have candidateLast := lastTerm_getElem? termOf candidate (candidate.length - 1) last (by omega)
    lastFound
  obtain ⟨won, start, same⟩ := candidateWritten _ _ lastFound
  rw [show candidate.length - 1 + 1 = candidate.length by omega, List.take_length] at same
  rcases newer with greater | ⟨equal, longer⟩
  · -- The last entry belongs to a leader elected in between, which started from the prefix.
    have after : term < termOf last := by omega
    have before : termOf last < later := bounded last (List.mem_of_getElem? lastFound)
    have carried := between (termOf last) after before won
    have startLong : index + 1 ≤ (s.start (termOf last)).length :=
      length_of_take _ _ _ reach carried
    rw [same, List.take_take, Nat.min_eq_left (by omega)]
    exact ledger_carried sound term (termOf last) (index + 1) won reach carried
  · -- Both logs end in the same leader's entries, so the longer one extends the shorter.
    have termSame : termOf lastVoter = termOf last := by omega
    have voterSame := (voterWritten _ _ lastVoterFound).2.2
    rw [show voter.length - 1 + 1 = voter.length by omega, List.take_length, termSame] at voterSame
    rw [same, List.take_take, Nat.min_eq_left (by omega), ← held, voterSame, List.take_take,
      Nat.min_eq_left (by omega)]

/-- An index chosen in one term is part of the log every later leader starts from. -/
theorem leader_completeness (sound : Sound P termOf s) (term : Nat) :
    ∀ later, term < later → (s.elected later).isSome →
      (s.start later).take (s.chosen term) = (s.ledger term).take (s.chosen term) := by
  intro later
  induction later using Nat.strongRecOn with
  | ind later ih =>
      intro order won
      rcases Nat.eq_zero_or_pos (s.chosen term) with zero | positive
      · simp [zero]
      obtain ⟨_, ⟨entry, chosen, own⟩, backers, quorum, backed⟩ := sound.chosen_backed term positive
      obtain ⟨⟨leader, voters⟩, elected⟩ := Option.isSome_iff_exists.mp won
      obtain ⟨electing, inside, ballots⟩ := sound.booth.elected_quorum later leader voters elected
      obtain ⟨voter, inBackers, inVoters⟩ := P.meet backers voters quorum electing
      have cast := ballots voter inVoters
      have between : Carried s term (s.chosen term) (· < later) :=
        fun middle after before wonMiddle => ih middle before after wonMiddle
      have held := sound.snap_keeps voter later term (s.chosen term) leader cast order
        (backed voter inBackers) (by
          intro other electors found
          rw [elected] at found
          simp only [Option.some.injEq, Prod.mk.injEq] at found
          rw [← found.2]
          exact inVoters) between
      have newer := sound.ballot_fresh voter later leader cast
      have old := start_old sound later won
      rw [sound.start_snap later leader voters elected] at old ⊢
      have position : s.chosen term - 1 + 1 = s.chosen term := by omega
      rw [← position] at held between ⊢
      exact upToDate_carries sound _ _
        (sound.snap_attributed leader later leader (ballots leader inside))
        (sound.snap_attributed voter later leader cast) newer term later _ entry old chosen own
        between held

theorem chosen_agree (sound : Sound P termOf s) (term later index : Nat) (order : term ≤ later)
    (won : (s.elected later).isSome) (chosen : index ≤ s.chosen term) :
    (s.ledger later).take index = (s.ledger term).take index := by
  rcases Nat.eq_or_lt_of_le order with equal | less
  · rw [equal]
  · rcases Nat.eq_zero_or_pos index with zero | positive
    · simp [zero]
    · obtain ⟨_, ⟨entry, found, _⟩, _⟩ := sound.chosen_backed term (by omega)
      have reach := (List.getElem?_eq_some_iff.mp found).1
      exact ledger_carried sound term later index won (by omega)
        (take_shorter _ _ index _ chosen (leader_completeness sound term later less won))

/-- A quorum holds everything chosen, now and in every later state. -/
theorem chosen_held (sound : Sound P termOf s) (term : Nat) (positive : 0 < s.chosen term) :
    ∃ backers, P.isQuorum backers ∧ ∀ member ∈ backers,
      (s.log member).take (s.chosen term) = (s.ledger term).take (s.chosen term) := by
  obtain ⟨_, _, backers, quorum, backed⟩ := sound.chosen_backed term positive
  refine ⟨backers, quorum, ?_⟩
  intro member belongs
  exact sound.log_keeps member term (s.chosen term) (backed member belongs)
    (fun later after _ won => leader_completeness sound term later after won)

end Results

end ReplicatedLog
