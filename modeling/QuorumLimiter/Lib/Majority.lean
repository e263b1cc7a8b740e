import Mathlib.Data.Finset.Card
import Mathlib.Data.List.Sort
import QuorumLimiter.Lib.Voting

/-!
Majorities of a finite membership as quorums, and the majority value of a vote by
numbers: the element at position `q - 1` of a descending list is reached by at
least `q` members.
-/

namespace Voting

variable {N : Type} [DecidableEq N]

def majority (members : Finset N) : Quorums N where
  isQuorum voters := voters ⊆ members ∧ members.card / 2 + 1 ≤ voters.card
  meet left right := by
    rintro ⟨leftInside, leftLarge⟩ ⟨rightInside, rightLarge⟩
    have union : (left ∪ right).card ≤ members.card :=
      Finset.card_le_card (Finset.union_subset leftInside rightInside)
    have both := Finset.card_union_add_card_inter left right
    have positive : 0 < (left ∩ right).card := by omega
    obtain ⟨voter, member⟩ := Finset.card_pos.mp positive
    exact ⟨voter, Finset.mem_of_mem_inter_left member, Finset.mem_of_mem_inter_right member⟩

theorem perm_others (members : List N) (self : N) (distinct : members.Nodup)
    (member : self ∈ members) : (self :: members.filter (· ≠ self)).Perm members := by
  have erased : members.filter (· ≠ self) = members.erase self := by
    rw [distinct.erase_eq_filter]
    apply List.filter_congr
    intro other _
    rw [decide_not]
    rfl
  rw [erased]
  exact (List.perm_cons_erase member).symm

theorem descending_count (values : List Nat) (count : Nat) (positive : 0 < count)
    (bound : count ≤ values.length) :
    count ≤ values.countP
      (fun value => decide ((values.insertionSort (· ≥ ·)).getD (count - 1) 0 ≤ value)) := by
  set sorted := values.insertionSort (· ≥ ·)
  set middle := sorted.getD (count - 1) 0
  have permuted : sorted.Perm values := List.perm_insertionSort _ values
  have ordered : sorted.Pairwise (· ≥ ·) := List.pairwise_insertionSort _ values
  have length : sorted.length = values.length := permuted.length_eq
  have reached : ∀ value ∈ sorted.take count, middle ≤ value := by
    intro value member
    obtain ⟨position, inside, rfl⟩ := List.mem_iff_getElem.mp member
    rw [List.length_take] at inside
    rw [List.getElem_take]
    have last : middle = sorted[count - 1] := by
      have inside : count - 1 < sorted.length := by omega
      simp [middle, List.getD_eq_getElem?_getD, List.getElem?_eq_getElem inside]
    rw [last]
    rcases Nat.eq_or_lt_of_le (show position ≤ count - 1 by omega) with same | before
    · simp [same]
    · exact List.pairwise_iff_getElem.mp ordered position (count - 1) (by omega) (by omega) before
  calc count = (sorted.take count).length := by rw [List.length_take]; omega
    _ = (sorted.take count).countP (fun value => decide (middle ≤ value)) := by
        rw [eq_comm, List.countP_eq_length]
        exact fun value member => decide_eq_true (reached value member)
    _ ≤ sorted.countP (fun value => decide (middle ≤ value)) :=
        (List.take_sublist count sorted).countP_le
    _ = values.countP (fun value => decide (middle ≤ value)) := permuted.countP_eq _

/-- The value at position `count - 1` is the greatest that `count` values reach. -/
theorem descending_rank (values : List Nat) (count bound : Nat) (positive : 0 < count)
    (fits : count ≤ values.length) :
    count ≤ values.countP (fun value => decide (bound ≤ value)) ↔
      bound ≤ (values.insertionSort (· ≥ ·)).getD (count - 1) 0 := by
  constructor
  · intro reached
    by_contra above
    have permuted : (values.insertionSort (· ≥ ·)).Perm values := List.perm_insertionSort _ values
    have ordered : (values.insertionSort (· ≥ ·)).Pairwise (· ≥ ·) :=
      List.pairwise_insertionSort _ values
    rw [← permuted.countP_eq] at reached
    rw [← permuted.length_eq] at fits
    generalize values.insertionSort (· ≥ ·) = sorted at *
    have middle : sorted.getD (count - 1) 0 = sorted[count - 1] := by
      have inside : count - 1 < sorted.length := by omega
      simp [List.getD_eq_getElem?_getD, List.getElem?_eq_getElem inside]
    -- From that position on every value is below the bound.
    have none : (sorted.drop (count - 1)).countP (fun value => decide (bound ≤ value)) = 0 := by
      rw [List.countP_eq_zero]
      intro value member
      obtain ⟨offset, inside, rfl⟩ := List.mem_iff_getElem.mp member
      rw [List.length_drop] at inside
      have below : sorted[count - 1 + offset] ≤ sorted[count - 1] := by
        rcases Nat.eq_zero_or_pos offset with zero | later
        · simp [zero]
        · exact List.pairwise_iff_getElem.mp ordered (count - 1) (count - 1 + offset) (by omega)
            (by omega) (by omega)
      rw [List.getElem_drop, decide_eq_true_eq]
      omega
    have split : (sorted.take (count - 1) ++ sorted.drop (count - 1)).countP
        (fun value => decide (bound ≤ value)) = _ := List.countP_append
    have short := List.countP_le_length (p := fun value => decide (bound ≤ value))
      (l := sorted.take (count - 1))
    rw [List.take_append_drop, none] at split
    rw [List.length_take] at short
    omega
  · intro below
    apply (descending_count values count positive fits).trans
    apply List.countP_mono_left
    intro value _ reached
    rw [decide_eq_true_eq] at reached ⊢
    omega

theorem card_reached (members : List N) (value : N → Nat) (bound : Nat)
    (distinct : members.Nodup) :
    (members.toFinset.filter fun member => bound ≤ value member).card =
      (members.map value).countP (fun value => decide (bound ≤ value)) := by
  rw [List.countP_map, List.countP_eq_length_filter,
    ← List.toFinset_card_of_nodup (distinct.filter _), List.toFinset_filter]
  congr 1
  ext member
  simp

theorem descending_reached (members : List N) (value : N → Nat) (count : Nat)
    (distinct : members.Nodup) (positive : 0 < count) (bound : count ≤ members.length) :
    count ≤ (members.toFinset.filter fun member =>
      (((members.map value).insertionSort (· ≥ ·)).getD (count - 1) 0) ≤ value member).card := by
  rw [card_reached members value _ distinct]
  exact descending_count (members.map value) count positive (by simpa using bound)

end Voting
