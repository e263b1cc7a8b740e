import Mathlib.Data.List.DropRight

/-!
Trimming a list at its ends, and splitting it at a separator. Trimming every part
of a split list forgets whether the whole was trimmed before, as long as the
separator itself is not trimmed; and two lists trimmed to the same one at the end
differ only in what was cut off there.
-/

namespace Trimming

variable {α : Type*} (p : α → Bool)

def trim (items : List α) : List α := (items.dropWhile p).rdropWhile p

theorem rdropWhile_append (items : List α) {more : List α} (all : ∀ item ∈ more, p item) :
    (items ++ more).rdropWhile p = items.rdropWhile p := by
  have gone : more.reverse.dropWhile p = [] :=
    List.dropWhile_eq_nil_iff.mpr fun item member => all item (List.mem_reverse.mp member)
  rw [List.rdropWhile, List.reverse_append, List.dropWhile_append, gone]
  rfl

theorem rdropWhile_split (items : List α) :
    ∃ more, items = items.rdropWhile p ++ more ∧ ∀ item ∈ more, p item := by
  refine ⟨(items.reverse.takeWhile p).reverse, ?_, ?_⟩
  · rw [List.rdropWhile, ← List.reverse_append, List.takeWhile_append_dropWhile,
      List.reverse_reverse]
  · intro item member
    exact List.mem_takeWhile_imp (List.mem_reverse.mp member)

theorem trim_append (items : List α) {more : List α} (all : ∀ item ∈ more, p item) :
    trim p (items ++ more) = trim p items := by
  rw [trim, trim, List.dropWhile_append]
  split
  · rename_i empty
    rw [List.isEmpty_iff.mp empty, List.dropWhile_eq_nil_iff.mpr all]
  · exact rdropWhile_append p _ all

theorem trim_rdropWhile (items : List α) : trim p (items.rdropWhile p) = trim p items := by
  obtain ⟨more, same, all⟩ := rdropWhile_split p items
  nth_rewrite 2 [same]
  exact (trim_append p _ all).symm

theorem trim_cons {first : α} (cut : p first = true) (rest : List α) :
    trim p (first :: rest) = trim p rest := by
  rw [trim, List.dropWhile_cons, if_pos cut, trim]

theorem rdropWhile_cons (first : α) (rest : List α) :
    (first :: rest.rdropWhile p).rdropWhile p = (first :: rest).rdropWhile p := by
  obtain ⟨more, same, all⟩ := rdropWhile_split p rest
  nth_rewrite 2 [same]
  exact (rdropWhile_append p (first :: rest.rdropWhile p) all).symm

theorem map_modifyHead {β : Type*} (f : List α → β) (first : α) (parts others : List (List α))
    (head : ∀ part other, f part = f other → f (first :: part) = f (first :: other))
    (same : parts.map f = others.map f) :
    (parts.modifyHead (first :: ·)).map f = (others.modifyHead (first :: ·)).map f := by
  cases parts with
  | nil =>
      cases others with
      | nil => rfl
      | cons other others => simp at same
  | cons part parts =>
      cases others with
      | nil => simp at same
      | cons other others =>
          simp only [List.map_cons, List.cons.injEq] at same
          simp [head part other same.1, same.2]

section Splitting

variable [DecidableEq α] (sep : α)

theorem splitOn_cons (first : α) (rest : List α) :
    (first :: rest).splitOn sep =
      if first = sep then [] :: rest.splitOn sep
      else (rest.splitOn sep).modifyHead (first :: ·) := by
  rw [List.splitOn, List.splitOnP_cons_eq_if_modifyHead]
  simp [List.splitOn]

theorem splitOn_append (kept : p sep = false) (items : List α) {more : List α}
    (all : ∀ item ∈ more, p item) :
    ((items ++ more).splitOn sep).map (List.rdropWhile p) =
      (items.splitOn sep).map (List.rdropWhile p) := by
  induction items with
  | nil =>
      have apart : more.splitOn sep = [more] := by
        apply List.splitOnP_eq_singleton
        intro item member
        have other : item ≠ sep := by
          rintro rfl
          simp [all item member] at kept
        simpa using other
      have gone : more.rdropWhile p = [] := rdropWhile_append p [] all
      rw [List.nil_append, apart, List.map_singleton, gone]
      rfl
  | cons first rest ih =>
      rw [List.cons_append, splitOn_cons, splitOn_cons]
      by_cases separates : first = sep
      · rw [if_pos separates, if_pos separates, List.map_cons, List.map_cons, ih]
      · rw [if_neg separates, if_neg separates]
        apply map_modifyHead _ _ _ _ _ ih
        intro part other same
        rw [← rdropWhile_cons p first part, same, rdropWhile_cons]

theorem splitOn_dropWhile (kept : p sep = false) (items : List α) :
    ((items.dropWhile p).splitOn sep).map (trim p) = (items.splitOn sep).map (trim p) := by
  induction items with
  | nil => rfl
  | cons first rest ih =>
      rw [List.dropWhile_cons]
      by_cases cut : p first = true
      · have other : first ≠ sep := by
          rintro rfl
          simp [kept] at cut
        rw [if_pos cut, ih, splitOn_cons, if_neg other]
        cases rest.splitOn sep with
        | nil => rfl
        | cons part parts => simp [trim_cons p cut]
      · rw [if_neg cut]

theorem splitOn_trim (kept : p sep = false) (items : List α) :
    ((trim p items).splitOn sep).map (trim p) = (items.splitOn sep).map (trim p) := by
  have right (items : List α) : ((items.rdropWhile p).splitOn sep).map (trim p) =
      (items.splitOn sep).map (trim p) := by
    obtain ⟨more, same, all⟩ := rdropWhile_split p items
    have parts := congrArg (List.map (trim p)) (splitOn_append p sep kept (items.rdropWhile p) all)
    rw [← same, List.map_map, List.map_map] at parts
    simpa only [Function.comp_def, trim_rdropWhile] using parts.symm
  rw [trim, right, splitOn_dropWhile p sep kept]

end Splitting

section Trailing

/-- The text without the given character at its end. -/
def trimRight (last : Char) (text : String) : String :=
  String.ofList (text.toList.rdropWhile (· = last))

variable [DecidableEq α] (last : α)

theorem rdropWhile_replicate (items : List α) (count : Nat) :
    (items ++ List.replicate count last).rdropWhile (· = last) = items.rdropWhile (· = last) :=
  rdropWhile_append _ items fun item member => by simp [List.eq_of_mem_replicate member]

theorem eq_append_replicate (items : List α) :
    ∃ count, items = items.rdropWhile (· = last) ++ List.replicate count last := by
  obtain ⟨more, same, all⟩ := rdropWhile_split (· = last) items
  refine ⟨more.length, ?_⟩
  have block : more = List.replicate more.length last :=
    List.eq_replicate_of_mem fun item member => by simpa using all item member
  rw [← block]
  exact same

/-- One of two lists with the same trimmed end is the other with more of it. -/
theorem extends_of_rdropWhile {items others : List α}
    (same : items.rdropWhile (· = last) = others.rdropWhile (· = last))
    (different : items ≠ others) :
    ∃ count, items = others ++ List.replicate (count + 1) last ∨
      others = items ++ List.replicate (count + 1) last := by
  obtain ⟨long, ends⟩ := eq_append_replicate last items
  obtain ⟨short, stops⟩ := eq_append_replicate last others
  rw [same] at ends
  rcases Nat.lt_trichotomy long short with less | equal | more
  · refine ⟨short - long - 1, Or.inr ?_⟩
    rw [ends, List.append_assoc, List.replicate_append_replicate,
      show long + (short - long - 1 + 1) = short by omega]
    exact stops
  · rw [equal, ← stops] at ends
    exact absurd ends different
  · refine ⟨long - short - 1, Or.inl ?_⟩
    rw [stops, List.append_assoc, List.replicate_append_replicate,
      show short + (long - short - 1 + 1) = long by omega]
    exact ends

end Trailing

end Trimming
