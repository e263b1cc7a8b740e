import Mathlib.Data.Finset.Card
import Mathlib.Logic.Function.Basic

/-!
Ballots cast in numbered terms. A voter names at most one candidate a term, and
a candidate that gathers a quorum of ballots is elected. Any two quorums share a
voter, so no term elects two candidates. What a voter has to keep for this is one
`Register`, its term and its ballot there.
-/

namespace Voting

/-- Families of voters of which any two meet. -/
structure Quorums (N : Type) where
  isQuorum : Finset N → Prop
  meet : ∀ left right, isQuorum left → isQuorum right → ∃ voter, voter ∈ left ∧ voter ∈ right

/-- The terms voters have reached, the ballots cast so far, and the elections won. -/
structure Booth (N : Type) where
  term : N → Nat
  ballot : N → Nat → Option N
  elected : Nat → Option (N × Finset N)

def Booth.init (N : Type) : Booth N where
  term _ := 0
  ballot _ _ := none
  elected _ := none

variable {N : Type}

structure Register (N : Type) where
  term : Nat
  vote : Option N

/-- The term goes up, or it stays and a ballot is cast only where there was none. -/
def Register.Advances (early late : Register N) : Prop :=
  early.term < late.term ∨
    early.term = late.term ∧ (early.vote = none ∨ early.vote = late.vote)

theorem advances_refl (r : Register N) : r.Advances r := Or.inr ⟨rfl, Or.inr rfl⟩

theorem advances_of_lt {early late : Register N} (later : early.term < late.term) :
    early.Advances late := Or.inl later

theorem advances_term {early late : Register N} (advances : early.Advances late) :
    early.term ≤ late.term := by
  rcases advances with later | ⟨same, _⟩ <;> omega

theorem advances_trans {first second third : Register N} (left : first.Advances second)
    (right : second.Advances third) : first.Advances third := by
  rcases left with later | ⟨same, free⟩
  · exact Or.inl (Nat.lt_of_lt_of_le later (advances_term right))
  · rcases right with later | ⟨equal, open_⟩
    · exact Or.inl (same ▸ later)
    · refine Or.inr ⟨same.trans equal, ?_⟩
      rcases free with none | kept
      · exact Or.inl none
      · rw [kept]
        exact open_

/-- Everything backed so far is covered by the register: by its ballot in the
current term, by being past in an earlier one. -/
structure Pledged (r : Register N) (backed : Nat → N → Prop) : Prop where
  covered : ∀ term candidate, backed term candidate →
    term < r.term ∨ term = r.term ∧ r.vote = some candidate
  single : ∀ term left right, backed term left → backed term right → left = right

theorem pledged_advances {early late : Register N} {backed : Nat → N → Prop}
    (pledged : Pledged early backed) (advances : early.Advances late) : Pledged late backed := by
  refine ⟨?_, pledged.single⟩
  intro term candidate before
  rcases pledged.covered term candidate before with past | ⟨rfl, cast⟩
  · exact Or.inl (Nat.lt_of_lt_of_le past (advances_term advances))
  · rcases advances with later | ⟨same, free | kept⟩
    · exact Or.inl later
    · rw [free] at cast
      contradiction
    · exact Or.inr ⟨same, kept ▸ cast⟩

theorem pledged_extend {r : Register N} {backed more : Nat → N → Prop} (pledged : Pledged r backed)
    (added : ∀ term candidate, more term candidate →
      backed term candidate ∨ term = r.term ∧ r.vote = some candidate) : Pledged r more := by
  -- Backing the candidate of the current ballot adds no second one.
  have covered : ∀ term candidate, more term candidate →
      term < r.term ∨ term = r.term ∧ r.vote = some candidate := by
    intro term candidate now
    rcases added term candidate now with before | current
    · exact pledged.covered term candidate before
    · exact Or.inr current
  refine ⟨covered, ?_⟩
  intro term left right forLeft forRight
  rcases Nat.lt_or_ge term r.term with past | current
  · have earlier : ∀ candidate, more term candidate → backed term candidate := by
      intro candidate now
      exact (added term candidate now).resolve_right (by omega)
    exact pledged.single term left right (earlier left forLeft) (earlier right forRight)
  · have cast : ∀ candidate, more term candidate → r.vote = some candidate := by
      intro candidate now
      exact ((covered term candidate now).resolve_left (by omega)).2
    exact Option.some.inj ((cast left forLeft).symm.trans (cast right forRight))

structure Sound (P : Quorums N) (s : Booth N) : Prop where
  ballot_term : ∀ voter term candidate,
    s.ballot voter term = some candidate → term ≤ s.term voter
  ballot_self : ∀ voter term candidate,
    s.ballot voter term = some candidate → s.ballot candidate term = some candidate
  elected_quorum : ∀ term candidate voters, s.elected term = some (candidate, voters) →
    P.isQuorum voters ∧ candidate ∈ voters ∧
      ∀ voter ∈ voters, s.ballot voter term = some candidate

theorem sound_init (P : Quorums N) : Sound P (Booth.init N) := by
  constructor <;> simp [Booth.init]

/-- A quorum of ballots for one candidate rules out every other winner of the term. -/
theorem elected_unique (P : Quorums N) (s : Booth N) (sound : Sound P s)
    (term : Nat) (leader rival : N) (voters backers : Finset N)
    (elected : s.elected term = some (leader, voters)) (quorum : P.isQuorum backers)
    (ballots : ∀ voter ∈ backers, s.ballot voter term = some rival) : rival = leader := by
  obtain ⟨electing, _, cast⟩ := sound.elected_quorum term leader voters elected
  obtain ⟨voter, inVoters, inBackers⟩ := P.meet voters backers electing quorum
  have forLeader := cast voter inVoters
  have forRival := ballots voter inBackers
  simpa [forLeader] using forRival.symm

theorem elected_term (P : Quorums N) (s : Booth N) (sound : Sound P s)
    (term : Nat) (leader : N) (voters : Finset N)
    (elected : s.elected term = some (leader, voters)) : term ≤ s.term leader := by
  obtain ⟨_, member, cast⟩ := sound.elected_quorum term leader voters elected
  exact sound.ballot_term leader term leader (cast leader member)

def Booth.elect (s : Booth N) (candidate : N) (voters : Finset N) : Booth N :=
  { s with elected := Function.update s.elected (s.term candidate) (some (candidate, voters)) }

theorem sound_elect (P : Quorums N) (s : Booth N) (candidate : N) (voters : Finset N)
    (sound : Sound P s) (quorum : P.isQuorum voters) (member : candidate ∈ voters)
    (ballots : ∀ voter ∈ voters, s.ballot voter (s.term candidate) = some candidate) :
    Sound P (s.elect candidate voters) := by
  refine ⟨sound.ballot_term, sound.ballot_self, ?_⟩
  intro term leader electors found
  by_cases same : term = s.term candidate
  · subst term
    simp only [Booth.elect, Function.update_self, Option.some.injEq, Prod.mk.injEq] at found
    obtain ⟨rfl, rfl⟩ := found
    exact ⟨quorum, member, ballots⟩
  · simp only [Booth.elect, Function.update_of_ne same] at found
    exact sound.elected_quorum term leader electors found

variable [DecidableEq N]

def Booth.bump (s : Booth N) (voter : N) (term : Nat) : Booth N :=
  { s with term := Function.update s.term voter term }

def Booth.cast (s : Booth N) (voter candidate : N) : Booth N :=
  { s with ballot := fun other term =>
      if other = voter ∧ term = s.term voter then some candidate else s.ballot other term }

def Booth.stand (s : Booth N) (voter : N) (term : Nat) : Booth N :=
  (s.bump voter term).cast voter voter

theorem sound_bump (P : Quorums N) (s : Booth N) (voter : N) (term : Nat) (sound : Sound P s)
    (later : s.term voter < term) : Sound P (s.bump voter term) := by
  refine ⟨?_, sound.ballot_self, sound.elected_quorum⟩
  intro other old candidate found
  have bound := sound.ballot_term other old candidate found
  by_cases same : other = voter
  · subst other
    simp only [Booth.bump, Function.update_self]
    omega
  · simpa [Booth.bump, same] using bound

theorem sound_cast (P : Quorums N) (s : Booth N) (voter candidate : N) (sound : Sound P s)
    (fresh : s.ballot voter (s.term voter) = none)
    (standing : s.ballot candidate (s.term voter) = some candidate ∨ candidate = voter) :
    Sound P (s.cast voter candidate) := by
  refine ⟨?_, ?_, ?_⟩
  · intro other term chosen found
    simp only [Booth.cast] at found ⊢
    split at found
    · rename_i same
      rw [same.1, same.2]
    · exact sound.ballot_term other term chosen found
  · intro other term chosen found
    simp only [Booth.cast] at found ⊢
    split at found
    · rename_i same
      simp only [Option.some.injEq] at found
      subst chosen
      rcases standing with standing | standing
      · split
        · rfl
        · rw [same.2]; exact standing
      · simp [standing, same.2]
    · have self := sound.ballot_self other term chosen found
      split
      · rename_i same
        rw [same.1, same.2, fresh] at self
        contradiction
      · exact self
  · intro term leader voters found
    obtain ⟨quorum, member, ballots⟩ := sound.elected_quorum term leader voters found
    refine ⟨quorum, member, ?_⟩
    intro other belongs
    simp only [Booth.cast]
    split
    · rename_i same
      have cast := ballots other belongs
      rw [same.1, same.2, fresh] at cast
      contradiction
    · exact ballots other belongs

theorem sound_stand (P : Quorums N) (s : Booth N) (voter : N) (term : Nat) (sound : Sound P s)
    (later : s.term voter < term) : Sound P (s.stand voter term) := by
  refine sound_cast P _ voter voter (sound_bump P s voter term sound later) ?_ (Or.inr rfl)
  cases found : (s.bump voter term).ballot voter ((s.bump voter term).term voter) with
  | none => rfl
  | some candidate =>
      have bound := sound.ballot_term voter _ candidate found
      simp only [Booth.bump, Function.update_self] at bound
      omega

end Voting
