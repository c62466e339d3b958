import Formulary.Proofs.Token.Body

/-!
What is read off a text that ends with a newline does not hang on data that stands behind it. Nothing that begins in
front of the mark of the data reaches beyond it.
-/

namespace Formulary.Seam

open Body Gap Result Spelling

/-- Nothing, or the mark of the data with the data behind it. -/
def Data (tail : List Char) : Prop :=
  tail = [] ∨ atDataMark tail = true

/-- A text that ends with a newline if anything stands behind it. -/
def Sealed (tail text : List Char) : Prop :=
  tail = [] ∨ ∃ front, text = front ++ ['\n']

/-- A text that begins with a newline, if it is not empty. -/
def Line (rest : List Char) : Prop :=
  ∀ c ∈ rest.head?, c = '\n'

variable {tail text after : List Char} {c : Char} {α : Type}

theorem Line.soft {rest : List Char} (line : Line rest) : Soft rest :=
  fun c head => .inr (line c head)

/-! The data -/

theorem data_nil : Data [] := .inl rfl

theorem Data.head (data : Data tail) : ∀ c ∈ tail.head?, c = '_' := by
  obtain rfl | marked := data
  · exact nofun
  · have front : startsWith tail "__END__" = true := (Bool.and_eq_true_iff.1 marked).1
    obtain ⟨behind, rfl⟩ := List.isPrefixOf_iff_prefix.1 front
    intro c head
    exact (Option.some.inj head).symm

theorem Data.head_ne (data : Data tail) (other : c ≠ '_') : tail.head? ≠ some c :=
  fun head => other (data.head c head)

theorem Data.takeWhile_eq (data : Data tail) {test : Char → Bool} (other : test '_' = false) :
    tail.takeWhile test = [] := by
  cases tail with
  | nil => rfl
  | cons c more =>
    obtain rfl := data.head c rfl
    exact List.takeWhile_cons_of_neg (by simp [other])

theorem Data.dropWhile_eq (data : Data tail) {test : Char → Bool} (other : test '_' = false) :
    tail.dropWhile test = tail := by
  cases tail with
  | nil => rfl
  | cons c more =>
    obtain rfl := data.head c rfl
    exact List.dropWhile_cons_of_neg (by simp [other])

theorem Data.startsWith_eq (data : Data tail) {word : String} (other : word.toList.head? ≠ some '_') :
    startsWith tail word = startsWith [] word := by
  unfold startsWith
  cases letters : word.toList with
  | nil => rfl
  | cons d others =>
    cases tail with
    | nil => rfl
    | cons c more =>
      obtain rfl := data.head c rfl
      have differs : d ≠ '_' := by simpa [letters] using other
      simp [List.isPrefixOf, differs]

theorem Data.undotted (data : Data tail) : startsWith tail "&." = false ∧ startsWith tail "." = false :=
  ⟨data.startsWith_eq (by decide), data.startsWith_eq (by decide)⟩

theorem Data.afterLayout_eq (data : Data tail) : afterLayout false tail = tail := by
  cases tail with
  | nil => rfl
  | cons c more =>
    obtain rfl := data.head c rfl
    rfl

/-! The text in front of it -/

namespace Sealed

theorem nil (text : List Char) : Sealed [] text := .inl rfl

theorem split (h : Sealed tail text) : ∃ front rest, text = front ++ rest ∧ Line rest ∧ Line (rest ++ tail) := by
  obtain rfl | ⟨front, rfl⟩ := h
  · exact ⟨text, [], (List.append_nil text).symm, nofun, nofun⟩
  · refine ⟨front, ['\n'], rfl, fun c head => ?_, fun c head => ?_⟩ <;> exact (Option.some.inj head).symm

theorem suffix (h : Sealed tail text) (le : after <:+ text) : after = [] ∨ Sealed tail after := by
  obtain rfl | ⟨front, rfl⟩ := h
  · exact .inr (.nil after)
  · obtain rfl | ⟨front', last, rfl⟩ := after.eq_nil_or_concat
    · exact .inl rfl
    · obtain ⟨before, eq⟩ := le
      rw [List.concat_eq_append, ← List.append_assoc] at eq
      obtain ⟨-, same⟩ := List.append_inj' eq rfl
      exact .inr (.inr ⟨front', by rw [List.concat_eq_append, same]⟩)

theorem behind {more : List Char} (h : Sealed tail (c :: more)) (inline : c ≠ '\n') : Sealed tail more := by
  obtain rfl | sealed := h.suffix (List.suffix_cons c more)
  · obtain rfl | ⟨front, eq⟩ := h
    · exact .nil []
    · obtain ⟨-, same⟩ := List.append_inj' (show [] ++ [c] = front ++ ['\n'] from eq) rfl
      exact absurd (List.singleton_inj.1 same) inline
  · exact sealed

variable (h : Sealed tail text)
include h

theorem head_append : (text ++ tail).head? = text.head? := by
  obtain rfl | ⟨front, rfl⟩ := h
  · rw [List.append_nil]
  · cases front <;> rfl

theorem read_append {f : List Char → α}
    (append : ∀ {rest}, Line rest → ∀ text, f (text ++ rest) = f text) : f (text ++ tail) = f text := by
  obtain ⟨front, rest, rfl, line, line'⟩ := h.split
  rw [List.append_assoc, append line', append line]

theorem take_append {f : List Char → α × List Char}
    (append : ∀ {rest}, Line rest → ∀ text, f (text ++ rest) = ((f text).1, (f text).2 ++ rest)) :
    f (text ++ tail) = ((f text).1, (f text).2 ++ tail) := by
  obtain ⟨front, rest, rfl, line, line'⟩ := h.split
  rw [List.append_assoc, append line', append line, List.append_assoc]

theorem take?_append {f : List Char → Option (α × List Char)}
    (append : ∀ {rest}, Line rest → ∀ text,
      f (text ++ rest) = (f text).map fun (value, behind) => (value, behind ++ rest)) :
    f (text ++ tail) = (f text).map fun (value, behind) => (value, behind ++ tail) := by
  obtain ⟨front, rest, rfl, line, line'⟩ := h.split
  rw [List.append_assoc, append line', append line, Option.map_map]
  simp only [Function.comp_def, List.append_assoc]

theorem startsWith_append (word : String) (solid : isSolid word = true) :
    startsWith (text ++ tail) word = startsWith text word :=
  h.read_append fun line => Seam.startsWith_append line.soft word solid

theorem percent_append : Percent.read? (text ++ tail) = Percent.read? text :=
  h.read_append fun line text => read?_append line.soft fun back => absurd (line '\r' back) (by decide)

theorem globalName_append :
    globalName (text ++ tail) = (globalName text).map fun (lexeme, behind) => (lexeme, behind ++ tail) := by
  obtain rfl | ⟨front, rfl⟩ := h
  · simp
  · cases front with
    | nil => rfl
    | cons c more =>
      have whole : Sealed tail (c :: more ++ ['\n']) := .inr ⟨c :: more, rfl⟩
      have line : Line ['\n'] := fun d head => (Option.some.inj head).symm
      have line' : Line ('\n' :: tail) := fun d head => (Option.some.inj head).symm
      rw [List.append_assoc, List.singleton_append, Seam.globalName_append line'.soft, Seam.globalName_append line.soft,
        Option.map_map]
      simp only [Function.comp_def, List.append_assoc, List.singleton_append]

theorem atDataMark_append : atDataMark (text ++ tail) = atDataMark text := by
  unfold atDataMark
  rw [h.startsWith_append "__END__" (by decide)]
  cases marked : startsWith text "__END__" with
  | false => rfl
  | true =>
    obtain ⟨behind, rfl⟩ := List.isPrefixOf_iff_prefix.1 marked
    obtain rfl | ⟨front, eq⟩ := h
    · rw [List.append_nil]
    · have past (more : List Char) : ("__END__".toList ++ more).drop 7 = more := rfl
      rw [List.append_assoc, past, past]
      cases behind with
      | nil =>
        have last := congrArg List.getLast? eq
        simp at last
      | cons c more => rfl

theorem dropWhile_append {test : Char → Bool} (stops : test '\n' = false) :
    (text ++ tail).dropWhile test = text.dropWhile test ++ tail := by
  obtain rfl | ⟨front, rfl⟩ := h
  · rw [List.append_nil, List.append_nil]
  · induction front with
    | nil => simp [stops]
    | cons c more ih =>
      rw [List.cons_append, List.cons_append, List.dropWhile_cons, List.dropWhile_cons]
      split
      · exact ih
      · rfl

end Sealed

/-! Bodies -/

theorem readBody_data (data : Data tail) {marks : Literal.Delimiters} {skip depth : Nat} {pos : Position}
    {body : List Char} (h : Literal.readBody marks skip depth pos text = .ok (body, after)) :
    Literal.readBody marks skip depth pos (text ++ tail) = .ok (body, after ++ tail) := by
  have nothing : ([] : List Char).head? ≠ some '\x7b' := nofun
  exact readBody_append nothing (data.head_ne (by decide)) pos (by simpa using h)

theorem takeBody_sealed (h : Sealed tail text) {opener : Heredoc.Opener} (named : opener.closedBy [] = false)
    {line : List Char} {lines : List (List Char)} (taken : Heredoc.takeBody opener line text = some (lines, after)) :
    Heredoc.takeBody opener line (text ++ tail) = some (lines, after ++ tail) := by
  obtain rfl | ⟨front, rfl⟩ := h
  · simpa using taken
  rw [List.append_assoc, List.singleton_append]
  induction front generalizing line lines with
  | nil =>
    -- Without the data the text ends here, and its end does not close the heredoc.
    have unclosed : Heredoc.takeBody opener [] [] = none := by simp [Heredoc.takeBody, named]
    rw [List.nil_append] at taken ⊢
    unfold Heredoc.takeBody at taken ⊢
    rw [if_pos rfl] at taken ⊢
    split at taken
    · rename_i closed
      obtain ⟨rfl, rfl⟩ := Prod.mk.inj (Option.some.inj taken)
      rw [if_pos closed, List.nil_append]
    · rw [unclosed] at taken
      contradiction
  | cons c more ih =>
    rw [List.cons_append] at taken ⊢
    unfold Heredoc.takeBody at taken ⊢
    split at taken
    · rename_i newline
      rw [if_pos newline]
      split at taken
      · rename_i closed
        obtain ⟨rfl, rfl⟩ := Prod.mk.inj (Option.some.inj taken)
        rw [if_pos closed, List.append_assoc, List.singleton_append]
      · rename_i unclosed
        obtain ⟨⟨found, behind⟩, hfound, eq⟩ := Option.map_eq_some_iff.1 taken
        obtain ⟨rfl, rfl⟩ := Prod.mk.inj eq
        rw [if_neg unclosed, ih hfound]
        rfl
    · rename_i inline
      rw [if_neg inline]
      exact ih taken

theorem afterBlockComment_sealed (h : Sealed tail text) {fresh ending : Bool}
    (past : afterBlockComment fresh ending text = some after) :
    afterBlockComment fresh ending (text ++ tail) = some (after ++ tail) := by
  obtain rfl | ⟨front, rfl⟩ := h
  · simpa using past
  induction front generalizing fresh ending with
  | nil =>
    rw [List.nil_append] at past ⊢
    rw [List.singleton_append]
    unfold afterBlockComment at past ⊢
    have ends := Sealed.startsWith_append (.inr ⟨[], rfl⟩ : Sealed tail ['\n']) "=end" (by decide)
    rw [List.singleton_append] at ends
    rw [ends]
    dsimp only at past ⊢
    generalize (if fresh then startsWith ['\n'] "=end" else ending) = last at past ⊢
    cases last with
    | true =>
      obtain rfl := Option.some.inj past
      rfl
    | false => contradiction
  | cons c more ih =>
    have ends := Sealed.startsWith_append (.inr ⟨c :: more, rfl⟩ : Sealed tail (c :: more ++ ['\n'])) "=end" (by decide)
    simp only [List.cons_append] at past ends ⊢
    unfold afterBlockComment at past ⊢
    rw [ends]
    dsimp only at past ⊢
    generalize (if fresh then startsWith (c :: (more ++ ['\n'])) "=end" else ending) = last at past ⊢
    split at past
    · rename_i line
      rw [if_pos line]
      cases last with
      | true =>
        obtain rfl := Option.some.inj past
        rfl
      | false => exact ih past
    · rename_i inline
      rw [if_neg inline]
      exact ih past

/-! Layout -/

theorem afterLayout_sealed (data : Data tail) (h : Sealed tail text) (inComment : Bool) :
    afterLayout inComment (text ++ tail) = afterLayout inComment text ++ tail := by
  obtain rfl | ⟨front, rfl⟩ := h
  · rw [List.append_nil, List.append_nil]
  induction front generalizing inComment with
  | nil =>
    cases inComment with
    | true => exact data.afterLayout_eq
    | false => exact data.afterLayout_eq
  | cons c more ih =>
    simp only [List.cons_append]
    unfold afterLayout
    split
    · exact ih _
    · split
      · exact ih _
      · split
        · exact ih _
        · rfl

theorem afterLayout_suffix (inComment : Bool) (text : List Char) : afterLayout inComment text <:+ text := by
  induction text generalizing inComment with
  | nil => exact List.suffix_refl []
  | cons c more ih =>
    unfold afterLayout
    repeat' split
    all_goals first
      | exact List.suffix_refl _
      | exact (ih _).trans (List.suffix_cons c more)

theorem continuesWithDot_data (data : Data tail) : continuesWithDot tail = false := by
  unfold continuesWithDot
  rw [data.afterLayout_eq]
  dsimp only
  rw [data.undotted.1, data.undotted.2, Bool.false_and, Bool.or_false]

theorem continuesWithDot_sealed (data : Data tail) (h : Sealed tail text) :
    continuesWithDot (text ++ tail) = continuesWithDot text := by
  unfold continuesWithDot
  rw [afterLayout_sealed data h]
  dsimp only
  obtain none | sealed := h.suffix (afterLayout_suffix false text)
  · rw [none, List.nil_append, data.undotted.1, data.undotted.2]
    rfl
  · rw [sealed.startsWith_append "&." (by decide), sealed.startsWith_append "." (by decide),
      sealed.startsWith_append ".." (by decide)]

/-! Marks behind a body -/

theorem takeWhile_behind (data : Data tail) (h : after = [] ∨ Sealed tail after) {test : Char → Bool}
    (hard : Hard test) (other : test '_' = false) : (after ++ tail).takeWhile test = after.takeWhile test := by
  obtain rfl | sealed := h
  · exact data.takeWhile_eq other
  · exact sealed.read_append fun line => takeWhile_append line.soft hard

theorem dropWhile_behind (data : Data tail) (h : after = [] ∨ Sealed tail after) {test : Char → Bool}
    (hard : Hard test) (other : test '_' = false) :
    (after ++ tail).dropWhile test = after.dropWhile test ++ tail := by
  obtain rfl | sealed := h
  · exact data.dropWhile_eq other
  · exact sealed.dropWhile_append hard.2.2.2

end Formulary.Seam
