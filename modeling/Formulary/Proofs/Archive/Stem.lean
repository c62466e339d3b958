import Formulary.Proofs.Archive.Version

/-!
What is left of an archive's name when its endings are cut off. A name is cut at its end only, so that what is left is
a beginning of it; and where endings are put behind a name in which none of them begins, just these are cut off.
-/

namespace Formulary.Version

/-! Beginnings -/

/-- A text without a newline at its end. -/
def unended (text : List Char) : List Char :=
  (splitNewline text).1

theorem unended_isPrefix (text : List Char) : unended text <+: text := by
  unfold unended splitNewline
  split
  · exact List.dropLast_prefix text
  · exact List.prefix_refl text

theorem cutFrom_isPrefix (starts : List Char) (endings : List String) (text : List Char) :
    cutFrom starts endings text <+: text := by
  induction text with
  | nil => exact List.prefix_refl _
  | cons c rest ih =>
    unfold cutFrom
    split
    · exact List.nil_prefix
    · exact List.cons_prefix_cons.2 ⟨rfl, ih⟩

theorem unended_concat (text : List Char) : unended (text ++ ['\n']) = text := by
  simp [unended, splitNewline]

theorem splitNewline_of_not_mem {text : List Char} (inline : '\n' ∉ text) : splitNewline text = (text, []) := by
  unfold splitNewline
  split
  · rename_i ends
    exact absurd (List.mem_of_getLast? ends) inline
  · rfl

theorem cutEnding_of_not_mem {starts : List Char} {endings : List String} {text : List Char} (inline : '\n' ∉ text) :
    cutEnding starts endings text = cutFrom starts endings text := by
  rw [cutEnding, splitNewline_of_not_mem inline]
  exact List.append_nil _

theorem unended_cutEnding_isPrefix (starts : List Char) (endings : List String) (text : List Char) :
    unended (cutEnding starts endings text) <+: unended text := by
  by_cases ends : text.getLast? = some '\n'
  · have split : splitNewline text = (text.dropLast, ['\n']) := if_pos ends
    have whole : cutEnding starts endings text = cutFrom starts endings text.dropLast ++ ['\n'] := by
      rw [cutEnding, split]
    have name : unended text = text.dropLast := congrArg Prod.fst split
    rw [whole, unended_concat, name]
    exact cutFrom_isPrefix ..
  · have split : splitNewline text = (text, []) := if_neg ends
    have whole : cutEnding starts endings text = cutFrom starts endings text := by
      rw [cutEnding, split]
      exact List.append_nil _
    have name : unended text = text := congrArg Prod.fst split
    rw [whole, name]
    exact (unended_isPrefix _).trans (cutFrom_isPrefix ..)

theorem unended_archiveStem_isPrefix (path : List Char) : unended (archiveStem path) <+: archiveName path :=
  (unended_cutEnding_isPrefix _ _ _).trans ((unended_cutEnding_isPrefix _ _ _).trans (unended_isPrefix _))

/-! Ends -/

section Ends

variable {starts : List Char} {endings : List String} {front tail : List Char}

/-- Nothing is cut off before the first character that an ending begins behind. -/
theorem cutFrom_append (none : ∀ left c rest, front = left ++ c :: rest → c ∈ starts →
    ∀ word ∈ endings, foldsTo word (rest ++ tail) = false) :
    cutFrom starts endings (front ++ tail) = front ++ cutFrom starts endings tail := by
  induction front with
  | nil => rfl
  | cons c rest ih =>
    have kept : ¬(starts.contains c && endings.any (foldsTo · (rest ++ tail))) = true := by
      intro cut
      simp only [Bool.and_eq_true, List.contains_iff_mem, List.any_eq_true] at cut
      obtain ⟨opens, word, known, folds⟩ := cut
      rw [none [] c rest rfl opens word known] at folds
      contradiction
    rw [List.cons_append, cutFrom, if_neg kept, ih, List.cons_append]
    intro left d more split
    exact none (c :: left) d more (congrArg _ split)

theorem cutFrom_append_of_not_mem (none : ∀ c ∈ front, c ∉ starts) :
    cutFrom starts endings (front ++ tail) = front ++ cutFrom starts endings tail := by
  refine cutFrom_append fun left c rest split opens => ?_
  exact absurd opens (none c (by simp [split]))

theorem cutFrom_cons_of_foldsTo {c : Char} {word : String} {text : List Char} (opens : c ∈ starts)
    (known : word ∈ endings) (spelled : foldsTo word text = true) : cutFrom starts endings (c :: text) = [] := by
  rw [cutFrom, if_pos]
  simpa [opens] using ⟨word, known, spelled⟩

end Ends

end Formulary.Version
