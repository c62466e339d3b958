import Formulary.Text.Split

/-! The stretches of a text between separators, and where in the text they stand. -/

namespace Formulary.Text

section Splitting

variable {α : Type} [BEq α] [LawfulBEq α] {separator : α}

theorem splitOn_append {left : List α} (whole : separator ∉ left) (rest : List α) :
    (left ++ rest).splitOn separator = (rest.splitOn separator).modifyHead (left ++ ·) := by
  induction left with
  | nil => cases split : rest.splitOn separator <;> simp [split]
  | cons a left ih =>
    obtain ⟨here, others⟩ := List.ne_and_not_mem_of_not_mem_cons whole
    rw [List.cons_append, List.splitOn_cons_eq_if_modifyHead, if_neg (by simpa using Ne.symm here), ih others,
      List.modifyHead_modifyHead]
    rfl

theorem splitOn_flatMap {stretches : List (List α)} (whole : ∀ stretch ∈ stretches, separator ∉ stretch) :
    (stretches.flatMap (separator :: ·)).splitOn separator = [] :: stretches := by
  induction stretches with
  | nil => exact List.splitOn_nil separator
  | cons stretch stretches ih =>
    obtain ⟨here, others⟩ := List.forall_mem_cons.1 whole
    rw [List.flatMap_cons, List.cons_append, List.splitOn_cons_eq_if_modifyHead, if_pos BEq.rfl, splitOn_append here,
      ih others, List.modifyHead_cons, List.append_nil]

end Splitting

variable {separator : Char} {text : List Char}

theorem splitOn_eq (separator : Char) (text : List Char) : splitOn separator text = text.splitOn separator := by
  induction text with
  | nil => rw [List.splitOn_nil, splitOn]
  | cons c rest ih =>
    rw [splitOn, List.splitOn_cons_eq_if_modifyHead, ih]
    by_cases ends : c = separator
    · rw [if_pos ends, if_pos (beq_iff_eq.2 ends)]
    · rw [if_neg ends, if_neg (fun eq => ends (beq_iff_eq.1 eq))]
      obtain ⟨stretch, more, split⟩ := List.exists_cons_of_ne_nil (List.splitOn_ne_nil separator rest)
      rw [split, List.modifyHead_cons]

theorem splitOn_of_not_mem (whole : separator ∉ text) : splitOn separator text = [text] := by
  rw [splitOn_eq, List.splitOn_eq_singleton whole]

/-- A stretch of a text that a separator or an end of the text bounds on either side, and that has no separator. -/
structure IsStretch (separator : Char) (stretch text : List Char) : Prop where
  whole : separator ∉ stretch
  placed : ∃ left right, text = left ++ stretch ++ right ∧
    (left = [] ∨ left.getLast? = some separator) ∧ (right = [] ∨ right.head? = some separator)

theorem IsStretch.append_left {stretch : List Char} (h : IsStretch separator stretch text) (front : List Char) :
    IsStretch separator stretch (front ++ separator :: text) := by
  obtain ⟨left, right, rfl, before, behind⟩ := h.placed
  refine ⟨h.whole, front ++ separator :: left, right, by simp, .inr ?_, behind⟩
  obtain rfl | last := before
  · simp
  · rw [List.getLast?_append, List.getLast?_cons, last]
    rfl

theorem IsStretch.append_right {stretch : List Char} (h : IsStretch separator stretch text) (back : List Char) :
    IsStretch separator stretch (text ++ separator :: back) := by
  obtain ⟨left, right, rfl, before, behind⟩ := h.placed
  refine ⟨h.whole, left, right ++ separator :: back, by simp, before, .inr ?_⟩
  obtain rfl | first := behind
  · rfl
  · rw [List.head?_append, first]
    rfl

theorem isStretch_of_mem_splitOn {stretch : List Char} (h : stretch ∈ splitOn separator text) :
    IsStretch separator stretch text := by
  -- the separators are met one after another, and behind each there is a shorter text
  induction length : text.length using Nat.strongRecOn generalizing text with
  | ind n ih =>
    by_cases split : separator ∈ text
    · obtain ⟨front, rest, rfl, first⟩ := List.eq_append_cons_of_mem split
      rw [splitOn_eq, List.splitOn_append_cons_self_of_not_mem first, List.mem_cons, ← splitOn_eq] at h
      obtain rfl | further := h
      · exact ⟨first, [], separator :: rest, rfl, .inl rfl, .inr rfl⟩
      · have shorter : rest.length < n := by
          rw [← length, List.length_append, List.length_cons]
          omega
        exact (ih rest.length shorter further rfl).append_left front
    · rw [splitOn_of_not_mem split, List.mem_singleton] at h
      subst h
      exact ⟨split, [], [], by simp, .inl rfl, .inl rfl⟩

end Formulary.Text
