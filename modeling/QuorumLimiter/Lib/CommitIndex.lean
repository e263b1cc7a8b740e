import QuorumLimiter.Lib.ReplicatedLog

/-!
Commit indexes over replicated logs. An index is settled for a log when some term
no later than a bound has chosen it and the log agrees with that term's ledger up
to it. Settled prefixes agree with one another and survive every later change.
-/

namespace ReplicatedLog

open Voting

variable {N E : Type} {P : Quorums N} {termOf : E → Nat} {s t : Replicas N E}

/-- What later states keep: elections, ledgers, and what was chosen. -/
def Extends (s t : Replicas N E) : Prop :=
  Grows s t ∧ ∀ term, s.chosen term ≤ t.chosen term

theorem extends_refl (s : Replicas N E) : Extends s s := ⟨grows_refl s, fun _ => Nat.le_refl _⟩

theorem extends_trans {u : Replicas N E} (left : Extends s t) (right : Extends t u) :
    Extends s u := by
  refine ⟨?_, fun term => Nat.le_trans (left.2 term) (right.2 term)⟩
  intro term leader voters found
  obtain ⟨kept, start, ledger⟩ := left.1 term leader voters found
  obtain ⟨final, laterStart, laterLedger⟩ := right.1 term leader voters kept
  exact ⟨final, laterStart.trans start, ledger.trans laterLedger⟩

theorem extends_choose (s : Replicas N E) (term index : Nat) :
    Extends s (s.choose term index) := by
  refine ⟨grows_refl s, fun other => ?_⟩
  by_cases same : other = term
  · subst other
    simp [Replicas.choose]
  · simp [Replicas.choose, same]

def Settled (s : Replicas N E) (log : List E) (bound index : Nat) : Prop :=
  index = 0 ∨ ∃ term, term ≤ bound ∧ index ≤ s.chosen term ∧
    log.take index = (s.ledger term).take index

theorem chosen_length (sound : Sound P termOf s) (term : Nat) (positive : 0 < s.chosen term) :
    (s.elected term).isSome ∧ s.chosen term ≤ (s.ledger term).length := by
  obtain ⟨won, ⟨entry, found, _⟩, _⟩ := sound.chosen_backed term positive
  have reach := (List.getElem?_eq_some_iff.mp found).1
  exact ⟨won, by omega⟩

theorem settled_zero (s : Replicas N E) (log : List E) (bound : Nat) : Settled s log bound 0 :=
  Or.inl rfl

theorem settled_length (sound : Sound P termOf s) {log : List E} {bound index : Nat}
    (settled : Settled s log bound index) : index ≤ log.length := by
  rcases settled with zero | ⟨term, _, chosen, same⟩
  · omega
  · rcases Nat.eq_zero_or_pos index with zero | positive
    · omega
    · exact length_of_take _ _ _
        (Nat.le_trans chosen (chosen_length sound term (by omega)).2) same

theorem settled_shorter {log : List E} {bound index shorter : Nat}
    (settled : Settled s log bound index) (order : shorter ≤ index) :
    Settled s log bound shorter := by
  rcases settled with zero | ⟨term, below, chosen, same⟩
  · exact Or.inl (by omega)
  · exact Or.inr ⟨term, below, by omega, take_shorter _ _ _ _ order same⟩

theorem settled_ledger (sound : Sound P termOf s) {log : List E} {bound index : Nat}
    (settled : Settled s log bound index) (later : Nat) (order : bound ≤ later)
    (won : (s.elected later).isSome) : (s.ledger later).take index = log.take index := by
  -- The ledger of any elected term at or after the bound repeats a settled prefix.
  rcases settled with zero | ⟨term, below, chosen, same⟩
  · simp [zero]
  · rw [chosen_agree sound term later index (by omega) won chosen, same]

theorem settled_start (sound : Sound P termOf s) {log : List E} {bound index : Nat}
    (settled : Settled s log bound index) (later : Nat) (order : bound < later)
    (won : (s.elected later).isSome) : (s.start later).take index = log.take index := by
  -- A leader of a term past the bound held a settled prefix when it was elected.
  rcases settled with zero | ⟨term, below, chosen, same⟩
  · simp [zero]
  · rw [same]
    exact take_shorter _ _ _ _ chosen (leader_completeness sound term later (by omega) won)

theorem settled_agree (sound : Sound P termOf s) {left right : List E} {low high index : Nat}
    (first : Settled s left low index) (second : Settled s right high index) :
    left.take index = right.take index := by
  rcases Nat.eq_zero_or_pos index with zero | positive
  · simp [zero]
  rcases first with zero | ⟨early, _, earlyChosen, leftSame⟩
  · omega
  rcases second with zero | ⟨late, _, lateChosen, rightSame⟩
  · omega
  have wonEarly := (chosen_length sound early (by omega)).1
  have wonLate := (chosen_length sound late (by omega)).1
  rw [leftSame, rightSame]
  rcases Nat.le_total early late with order | order
  · exact (chosen_agree sound early late index order wonLate earlyChosen).symm
  · exact chosen_agree sound late early index order wonEarly lateChosen

theorem settled_extends (sound : Sound P termOf s) (extended : Extends s t) {log grown : List E}
    {bound higher index : Nat} (settled : Settled s log bound index) (order : bound ≤ higher)
    (same : grown.take index = log.take index) : Settled t grown higher index := by
  rcases settled with zero | ⟨term, below, chosen, agrees⟩
  · exact Or.inl zero
  · rcases Nat.eq_zero_or_pos index with zero | positive
    · exact Or.inl zero
    · obtain ⟨won, reach⟩ := chosen_length sound term (by omega)
      obtain ⟨_, _, grows⟩ := grows_isSome s t extended.1 term won
      refine Or.inr ⟨term, by omega, Nat.le_trans chosen (extended.2 term), ?_⟩
      rw [same, agrees, take_of_grows _ _ _ grows (by omega)]

theorem settled_adopt (sound : Sound P termOf s) {member : N} {index count : Nat}
    (settled : Settled s (s.log member) (s.term member) index)
    (won : (s.elected (s.term member)).isSome)
    (differs : (s.log member).take count ≠ (s.ledger (s.term member)).take count) :
    ((s.ledger (s.term member)).take count).take index = (s.log member).take index := by
  -- A member never gives up a settled prefix when it adopts its leader's log.
  have agrees := settled_ledger sound settled (s.term member) (Nat.le_refl _) won
  by_cases inside : index ≤ count
  · rw [List.take_take, Nat.min_eq_left inside, agrees]
  · exact absurd (take_shorter _ _ count index (by omega) agrees.symm) differs

theorem settled_choose (term index : Nat) (log : List E)
    (same : log.take index = (s.ledger term).take index) :
    Settled (s.choose term index) log term index := by
  refine Or.inr ⟨term, Nat.le_refl _, ?_, same⟩
  simp [Replicas.choose]

end ReplicatedLog
