import QuorumLimiter.Raft.Moves

/-!
The receiver's merge of sent entries into its log. `reconcile` compares terms at
computed indexes while `overwriteEntries` writes under the entries' own indexes;
the two fit when the entries are numbered in order, and on a contiguous log the
result is the old log up to the first difference followed by what was sent.
-/

namespace QuorumLimiter

variable {σ ρ : Type}

section Buckets

theorem entry_overwrite (store : Store σ) (truncateFrom count : Nat) (entries : List LogEntry)
    (consecutive : Consecutive count entries) (cut : truncateFrom = 0 ∨ truncateFrom = count + 1)
    (key : Nat) (inside : key ≤ count + entries.length) :
    (store.overwriteEntries truncateFrom entries).entry key =
      if count < key then entries[key - count - 1]? else store.entry key := by
  simp only [Store.entry, Store.overwriteEntries]
  rw [get_putEntries entries _ count consecutive]
  by_cases above : count < key
  · rw [if_pos ⟨above, inside⟩, if_pos above]
  · rw [if_neg (by omega), if_neg above]
    split
    · rw [Store.truncateSuffixTx, Bucket.foldl_delete_seek, Bucket.get_filter]
      have below : key < truncateFrom := by omega
      cases store.log.get key <;> simp [below, Option.filter]
    · rfl

end Buckets

section Reconciling

variable (store : Store σ)

theorem reconcile_cases (entries : List LogEntry) (prevIndex : Nat) :
    (reconcile store prevIndex entries = (0, []) ∧
      ∀ position sent, entries[position]? = some sent →
        ∃ entry, store.entry (prevIndex + position + 1) = some entry ∧ entry.term = sent.term) ∨
    ∃ place first, entries[place]? = some first ∧
      (∀ position sent, position < place → entries[position]? = some sent →
        ∃ entry, store.entry (prevIndex + position + 1) = some entry ∧ entry.term = sent.term) ∧
      (store.entry (prevIndex + place + 1) = none ∧
          reconcile store prevIndex entries = (0, entries.drop place) ∨
        (∃ entry, store.entry (prevIndex + place + 1) = some entry ∧ entry.term ≠ first.term) ∧
          reconcile store prevIndex entries = (prevIndex + place + 1, entries.drop place)) := by
  -- The entry at which reconciling stops, if any: what it appends starts there.
  induction entries generalizing prevIndex with
  | nil => exact Or.inl ⟨rfl, by simp⟩
  | cons first rest ih =>
      cases found : store.entry (prevIndex + 1) with
      | none =>
          refine Or.inr ⟨0, first, rfl, by simp, Or.inl ⟨found, ?_⟩⟩
          simp [reconcile, found]
      | some existing =>
          by_cases same : existing.term = first.term
          · have step : reconcile store prevIndex (first :: rest) =
                reconcile store (prevIndex + 1) rest := by simp [reconcile, found, same]
            have shift : ∀ place, prevIndex + 1 + place + 1 = prevIndex + (place + 1) + 1 := by
              omega
            have head : ∀ sent, (first :: rest)[0]? = some sent →
                ∃ entry, store.entry (prevIndex + 0 + 1) = some entry ∧ entry.term = sent.term := by
              rintro sent ⟨⟩
              exact ⟨existing, found, same⟩
            rw [step]
            rcases ih (prevIndex + 1) with ⟨result, held⟩ | ⟨place, stop, at', below, outcome⟩
            · refine Or.inl ⟨result, ?_⟩
              intro position sent present
              cases position with
              | zero => exact head sent present
              | succ position =>
                  rw [← shift]
                  exact held position sent present
            · refine Or.inr ⟨place + 1, stop, at', ?_, ?_⟩
              · intro position sent bound present
                cases position with
                | zero => exact head sent present
                | succ position =>
                    rw [← shift]
                    exact below position sent (by omega) present
              · rw [← shift]
                exact outcome
          · refine Or.inr ⟨0, first, rfl, by simp, Or.inr ⟨⟨existing, found, same⟩, ?_⟩⟩
            simp [reconcile, found, same]

theorem reconcile_appends {entries toAppend : List LogEntry} {prevIndex truncateFrom : Nat}
    (merged : reconcile store prevIndex entries = (truncateFrom, toAppend))
    (needed : truncateFrom > 0 ∨ toAppend ≠ []) : toAppend ≠ [] := by
  rintro rfl
  rcases reconcile_cases store entries prevIndex with
    ⟨result, _⟩ | ⟨place, first, present, _, ⟨_, result⟩ | ⟨_, result⟩⟩
  · rw [merged, Prod.mk.injEq] at result
    simp [result.1] at needed
  all_goals
    have inside := (List.getElem?_eq_some_iff.mp present).1
    rw [merged, Prod.mk.injEq] at result
    exact absurd (List.drop_eq_nil_iff.mp result.2.symm) (by omega)

theorem reconcile_held {entries : List LogEntry} {prevIndex : Nat}
    (held : ∀ position sent, entries[position]? = some sent →
      ∃ entry, store.entry (prevIndex + position + 1) = some entry ∧ entry.term = sent.term) :
    reconcile store prevIndex entries = (0, []) := by
  rcases reconcile_cases store entries prevIndex with
    ⟨result, _⟩ | ⟨place, first, present, _, outcome⟩
  · exact result
  · obtain ⟨entry, found, same⟩ := held place first present
    rcases outcome with ⟨missing, _⟩ | ⟨⟨other, there, conflict⟩, _⟩
    · rw [found] at missing
      contradiction
    · rw [found] at there
      cases there
      exact absurd same conflict

theorem consecutive_drop {count : Nat} {entries : List LogEntry}
    (consecutive : Consecutive count entries) (place : Nat) :
    Consecutive (count + place) (entries.drop place) := by
  intro position entry found
  rw [List.getElem?_drop] at found
  have := consecutive (place + position) entry found
  omega

theorem merged_holds (entries : List LogEntry) (prevIndex truncateFrom : Nat)
    (toAppend : List LogEntry) (consecutive : Consecutive prevIndex entries)
    (merged : reconcile store prevIndex entries = (truncateFrom, toAppend)) :
    (∀ key, key ≤ prevIndex →
      (store.overwriteEntries truncateFrom toAppend).entry key = store.entry key) ∧
    ∀ position sent, entries[position]? = some sent →
      ∃ entry, (store.overwriteEntries truncateFrom toAppend).entry (prevIndex + position + 1) =
        some entry ∧ entry.term = sent.term := by
  -- After the merge every sent entry is present by term, and nothing at or below `prevIndex`
  -- has changed.
  rcases reconcile_cases store entries prevIndex with
    ⟨result, held⟩ | ⟨place, first, at', below, outcome⟩
  · rw [result] at merged
    cases merged
    exact ⟨fun _ _ => rfl, held⟩
  · have inside : place < entries.length := (List.getElem?_eq_some_iff.mp at').1
    have shape : toAppend = entries.drop place ∧
        (truncateFrom = 0 ∨ truncateFrom = prevIndex + place + 1) := by
      rcases outcome with ⟨_, result⟩ | ⟨_, result⟩ <;> rw [result] at merged <;> cases merged
      · exact ⟨rfl, Or.inl rfl⟩
      · exact ⟨rfl, Or.inr rfl⟩
    have written := entry_overwrite store truncateFrom (prevIndex + place) toAppend
      (shape.1 ▸ consecutive_drop consecutive place) shape.2
    rw [shape.1, List.length_drop] at written
    rw [shape.1]
    refine ⟨?_, ?_⟩
    · intro key bound
      rw [written key (by omega), if_neg (by omega)]
    · intro position sent found
      have reach : position < entries.length := (List.getElem?_eq_some_iff.mp found).1
      rw [written (prevIndex + position + 1) (by omega)]
      by_cases early : position < place
      · rw [if_neg (by omega)]
        exact below position sent early found
      · rw [if_pos (by omega), List.getElem?_drop,
          show place + (prevIndex + position + 1 - (prevIndex + place) - 1) = position by omega]
        exact ⟨sent, found, rfl⟩

end Reconciling

end QuorumLimiter
