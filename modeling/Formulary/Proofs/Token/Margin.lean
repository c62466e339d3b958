import Formulary.Token.Heredoc
import Mathlib.Data.List.Forall2

/-!
The margin that the lines of a heredoc lose. Two things tell what is left of them: the lines stand behind margins of
one width, and nothing is left that all of them could lose. So lines that are moved to the right together lose what
they were moved by.
-/

namespace Formulary

theorem forall₂_comp {α β γ : Type} {R : α → β → Prop} {S : β → γ → Prop} {xs : List α} {ys : List β} {zs : List γ}
    (h : List.Forall₂ R xs ys) (h' : List.Forall₂ S ys zs) : List.Forall₂ (fun x z => ∃ y, R x y ∧ S y z) xs zs := by
  induction h generalizing zs with
  | nil =>
    cases h'
    exact .nil
  | cons first _ ih =>
    cases h' with
    | cons second h' => exact .cons ⟨_, first, second⟩ (ih h')

namespace Heredoc

variable {margin line inner outer : List Char} {lines kept indented : List (List Char)} {width depth : Nat}

/-- A line of a body: it ends with its only newline. -/
def IsLine (line : List Char) : Prop :=
  line.getLast? = some '\n' ∧ '\n' ∉ line.dropLast

instance : DecidablePred IsLine := fun line =>
  inferInstanceAs (Decidable (line.getLast? = some '\n' ∧ '\n' ∉ line.dropLast))

theorem isLine_iff : IsLine line ↔ ∃ content, '\n' ∉ content ∧ line = content ++ ['\n'] := by
  constructor
  · rintro ⟨ends, inline⟩
    obtain ⟨content, rfl⟩ := List.getLast?_eq_some_iff.1 ends
    exact ⟨content, by simpa using inline, rfl⟩
  · rintro ⟨content, inline, rfl⟩
    exact ⟨by simp, by simpa using inline⟩

/-! Margins -/

theorem isMargin_iff {c : Char} : isMargin c = true ↔ c = ' ' ∨ c = '\t' := by
  simp [isMargin]

theorem isBlank_of_isMargin {c : Char} (marginal : isMargin c = true) : Text.isBlank c = true := by
  obtain rfl | rfl := isMargin_iff.1 marginal <;> decide

theorem line_notMem_margin (marginal : margin.all isMargin = true) : '\n' ∉ margin :=
  fun among => absurd (List.all_eq_true.1 marginal _ among) (by decide)

/-- Behind a margin a line is blank if it is blank without it. -/
theorem isBlankText_margin (marginal : margin.all isMargin = true) (line : List Char) :
    Text.isBlankText (margin ++ line) = Text.isBlankText line := by
  have blank : margin.all Text.isBlank = true :=
    List.all_eq_true.2 fun c among => isBlank_of_isMargin (List.all_eq_true.1 marginal c among)
  rw [Text.isBlankText, List.all_append, blank, Bool.true_and, Text.isBlankText]

theorem marginWidth_margin (marginal : margin.all isMargin = true) (line : List Char) :
    marginWidth (margin ++ line) = margin.length + marginWidth line := by
  rw [marginWidth, List.takeWhile_append_of_pos (List.all_eq_true.1 marginal), List.length_append, marginWidth]

/-- The line begins with neither a space nor a tab. -/
def AtEdge (line : List Char) : Prop :=
  line.head?.any isMargin = false

theorem AtEdge.marginWidth (edge : AtEdge line) : marginWidth line = 0 := by
  cases line with
  | nil => rfl
  | cons c more => rw [Heredoc.marginWidth, List.takeWhile_cons_of_neg (by simpa [AtEdge] using edge), List.length_nil]

theorem AtEdge.dropWhile (edge : AtEdge line) : line.dropWhile isMargin = line := by
  cases line with
  | nil => rfl
  | cons c more => rw [List.dropWhile_cons_of_neg (by simpa [AtEdge] using edge)]

theorem atEdge_dropWhile (line : List Char) : AtEdge (line.dropWhile isMargin) := by
  have stops := List.head?_dropWhile_not isMargin line
  cases left : line.dropWhile isMargin with
  | nil => rfl
  | cons c more =>
    rw [left] at stops
    exact stops

theorem drop_marginWidth (line : List Char) : line.drop (marginWidth line) = line.dropWhile isMargin := by
  have split := List.takeWhile_append_dropWhile (p := isMargin) (l := line)
  calc line.drop (marginWidth line)
      = (line.takeWhile isMargin ++ line.dropWhile isMargin).drop (marginWidth line) := by rw [split]
    _ = line.dropWhile isMargin := List.drop_left

/-- The start of a line that is no longer than its margin. -/
theorem all_take_of_le_marginWidth (narrow : width ≤ marginWidth line) :
    (line.take width).all isMargin = true := by
  have begins := List.takeWhile_append_dropWhile (p := isMargin) (l := line)
  rw [← begins, List.take_append_of_le_length narrow, List.all_eq_true]
  exact fun c member => List.all_eq_true.1 List.all_takeWhile c (List.mem_of_mem_take member)

/-! Lines moved to the right -/

/-- The outer line is the inner one behind a margin. Unless the line is blank, which no margin changes, the margin has
the given width. -/
def Indents (width : Nat) (inner outer : List Char) : Prop :=
  ∃ margin, margin.all isMargin = true ∧ outer = margin ++ inner ∧
    (Text.isBlankText inner = false → margin.length = width)

namespace Indents

theorem refl (line : List Char) : Indents 0 line line :=
  ⟨[], rfl, rfl, fun _ => rfl⟩

theorem isBlankText (h : Indents width inner outer) : Text.isBlankText outer = Text.isBlankText inner := by
  obtain ⟨margin, marginal, rfl, -⟩ := h
  exact isBlankText_margin marginal inner

theorem marginWidth (h : Indents width inner outer) (solid : Text.isBlankText inner = false) :
    marginWidth outer = width + marginWidth inner := by
  obtain ⟨margin, marginal, rfl, same⟩ := h
  rw [marginWidth_margin marginal, same solid]

theorem trans (h : Indents width line inner) (h' : Indents depth inner outer) : Indents (depth + width) line outer := by
  have blank := h.isBlankText
  obtain ⟨margin, marginal, rfl, same⟩ := h
  obtain ⟨more, marginal', rfl, same'⟩ := h'
  refine ⟨more ++ margin, by rw [List.all_append, marginal', marginal]; rfl, (List.append_assoc ..).symm, fun solid => ?_⟩
  rw [List.length_append, same' (blank.trans solid), same solid]

theorem isLine_iff (h : Indents width inner outer) : IsLine outer ↔ IsLine inner := by
  obtain ⟨margin, marginal, rfl, -⟩ := h
  have inline := line_notMem_margin marginal
  cases inner with
  | nil =>
    have unended : margin.getLast? ≠ some '\n' := fun ends => inline (List.mem_of_getLast? ends)
    simp [IsLine, unended]
  | cons c more => simp [IsLine, inline]

end Indents

/-! What is left of lines -/

/-- Lines without a common margin: blank ones have none at all, and of the others one has none. -/
structure Outdented (lines : List (List Char)) : Prop where
  blank : ∀ line ∈ lines, Text.isBlankText line = true → AtEdge line
  solid : ∃ line ∈ lines, Text.isBlankText line = false ∧ AtEdge line

/-- What is left of a line when margins of a width go. -/
def unmargin (width : Nat) (line : List Char) : List Char :=
  if Text.isBlankText line then line.dropWhile isMargin else line.drop width

theorem indents_unmargin (narrow : Text.isBlankText line = false → width ≤ marginWidth line) :
    Indents width (unmargin width line) line := by
  unfold unmargin
  split
  · rename_i blank
    refine ⟨line.takeWhile isMargin, List.all_takeWhile, List.takeWhile_append_dropWhile.symm, fun solid => ?_⟩
    rw [← isBlankText_margin List.all_takeWhile, List.takeWhile_append_dropWhile, blank] at solid
    contradiction
  · rename_i solid
    have narrow := narrow (by simpa using solid)
    refine ⟨line.take width, all_take_of_le_marginWidth narrow, (List.take_append_drop width line).symm, fun _ => ?_⟩
    exact List.length_take_of_le (Nat.le_trans narrow (List.takeWhile_prefix isMargin).length_le)

theorem Indents.unmargin (h : Indents width inner outer) (edge : Text.isBlankText inner = true → AtEdge inner) :
    unmargin width outer = inner := by
  have same := h.isBlankText
  obtain ⟨margin, marginal, rfl, wide⟩ := h
  rw [Heredoc.unmargin, same]
  split
  · rename_i blank
    rw [List.dropWhile_append_of_pos (List.all_eq_true.1 marginal), (edge blank).dropWhile]
  · rename_i solid
    rw [← wide (by simpa using solid), List.drop_left]

theorem atEdge_unmargin (line : List Char) : AtEdge (unmargin (marginWidth line) line) := by
  unfold unmargin
  split
  · exact atEdge_dropWhile line
  · exact drop_marginWidth line ▸ atEdge_dropWhile line

/-- The widths of the margins of the lines that are not blank. -/
def solidWidths (lines : List (List Char)) : List Nat :=
  (lines.filter (!Text.isBlankText ·)).map marginWidth

theorem mem_solidWidths :
    width ∈ solidWidths lines ↔ ∃ line ∈ lines, Text.isBlankText line = false ∧ marginWidth line = width := by
  simp [solidWidths, and_assoc]

theorem solidWidths_of_indents (h : List.Forall₂ (Indents width) kept lines) :
    solidWidths lines = (solidWidths kept).map (width + ·) := by
  induction h with
  | nil => rfl
  | @cons inner outer kept lines first _ ih =>
    have same := first.isBlankText
    unfold solidWidths at ih ⊢
    cases blank : Text.isBlankText inner with
    | true => simp [blank, same.trans blank, ih]
    | false => simp [blank, same.trans blank, ih, first.marginWidth blank]

theorem dedent_of_least (least : (solidWidths lines).min? = some width) : dedent lines = lines.map (unmargin width) := by
  rw [dedent, ← solidWidths, least]
  rfl

theorem dedent_of_blank (blank : ∀ line ∈ lines, Text.isBlankText line = true) : dedent lines = lines := by
  have none : lines.filter (!Text.isBlankText ·) = [] :=
    List.filter_eq_nil_iff.2 fun line among => by simp [blank line among]
  rw [dedent, none]
  rfl

/-- The margin that goes is as wide as that of a line that is not blank, and no such line has less. -/
theorem exists_dedent_eq (some : ∃ line ∈ lines, Text.isBlankText line = false) :
    ∃ width ∈ solidWidths lines, dedent lines = lines.map (unmargin width) ∧
      ∀ line ∈ lines, Indents width (unmargin width line) line := by
  obtain ⟨line, among, solid⟩ := some
  have filled : solidWidths lines ≠ [] := List.ne_nil_of_mem (mem_solidWidths.2 ⟨line, among, solid, rfl⟩)
  obtain ⟨width, least⟩ := Option.ne_none_iff_exists'.1 (mt List.min?_eq_none_iff.1 filled)
  obtain ⟨own, least_le⟩ := List.min?_eq_some_iff.1 least
  exact ⟨width, own, dedent_of_least least, fun line among =>
    indents_unmargin fun solid => least_le _ (mem_solidWidths.2 ⟨line, among, solid, rfl⟩)⟩

/-- The lines stand behind what is left of them. -/
theorem exists_indents_dedent (lines : List (List Char)) :
    ∃ width, List.Forall₂ (Indents width) (dedent lines) lines := by
  by_cases some : ∃ line ∈ lines, Text.isBlankText line = false
  · obtain ⟨width, -, eq, indents⟩ := exists_dedent_eq some
    exact ⟨width, eq ▸ List.forall₂_map_left_iff.2 (List.forall₂_same.2 indents)⟩
  · exact ⟨0, (dedent_of_blank (by simpa using some)).symm ▸ List.forall₂_same.2 fun line _ => .refl line⟩

theorem outdented_dedent (some : ∃ line ∈ lines, Text.isBlankText line = false) : Outdented (dedent lines) := by
  obtain ⟨width, own, eq, indents⟩ := exists_dedent_eq some
  rw [eq]
  constructor
  · intro left among blank
    obtain ⟨line, within, rfl⟩ := List.mem_map.1 among
    rw [← (indents line within).isBlankText] at blank
    rw [unmargin, if_pos blank]
    exact atEdge_dropWhile line
  · obtain ⟨line, among, solid, rfl⟩ := mem_solidWidths.1 own
    exact ⟨_, List.mem_map_of_mem among, (indents line among).isBlankText ▸ solid, atEdge_unmargin line⟩

/-- No other lines without a common margin stand behind margins of one width in these. -/
theorem dedent_eq_of_indents (h : List.Forall₂ (Indents width) kept lines) (outdented : Outdented kept) :
    dedent lines = kept := by
  -- The line at the edge has no other margin than the new one, and no line that is not blank has less.
  have least : (solidWidths lines).min? = some width := by
    obtain ⟨line, among, solid, edge⟩ := outdented.solid
    have none : 0 ∈ solidWidths kept := mem_solidWidths.2 ⟨line, among, solid, edge.marginWidth⟩
    rw [solidWidths_of_indents h]
    refine List.min?_eq_some_iff.2 ⟨List.mem_map.2 ⟨0, none, rfl⟩, fun other among => ?_⟩
    obtain ⟨more, -, rfl⟩ := List.mem_map.1 among
    exact Nat.le_add_right width more
  have each : List.Forall₂ (fun left line => unmargin width line = left) kept lines :=
    ((List.forall₂_and_left kept lines).2 ⟨outdented.blank, h⟩).imp fun left line both => both.2.unmargin both.1
  rw [dedent_of_least least]
  exact List.forall₂_eq_eq_eq ▸ List.forall₂_map_left_iff.2 each.flip

theorem dedent_dedent (lines : List (List Char)) : dedent (dedent lines) = dedent lines := by
  by_cases some : ∃ line ∈ lines, Text.isBlankText line = false
  · exact dedent_eq_of_indents (List.forall₂_same.2 fun line _ => .refl line) (outdented_dedent some)
  · have blank : ∀ line ∈ lines, Text.isBlankText line = true := by simpa using some
    rw [dedent_of_blank blank, dedent_of_blank blank]

/-- Lines that are moved to the right together lose what they were moved by. -/
theorem dedent_indented (some : ∃ line ∈ lines, Text.isBlankText line = false)
    (h : List.Forall₂ (Indents depth) lines indented) : dedent indented = dedent lines := by
  obtain ⟨width, behind⟩ := exists_indents_dedent lines
  have further : List.Forall₂ (Indents (depth + width)) (dedent lines) indented :=
    (forall₂_comp behind h).imp fun _ _ ⟨_, inner, outer⟩ => inner.trans outer
  exact dedent_eq_of_indents further (outdented_dedent some)

theorem bodyText_indented {opener : Opener} (trimmed : opener.margin = .trimmed)
    (some : ∃ line ∈ lines, Text.isBlankText line = false) (h : List.Forall₂ (Indents depth) lines indented) :
    opener.bodyText indented = opener.bodyText lines := by
  rw [Opener.bodyText, Opener.bodyText, if_pos trimmed, if_pos trimmed, dedent_indented some h]

theorem forall_isLine_of_indents (h : List.Forall₂ (Indents width) kept lines) :
    (∀ line ∈ lines, IsLine line) ↔ ∀ line ∈ kept, IsLine line := by
  induction h with
  | nil => exact Iff.rfl
  | cons first _ ih => rw [List.forall_mem_cons, List.forall_mem_cons, first.isLine_iff, ih]

theorem isLine_dedent (lined : ∀ line ∈ lines, IsLine line) : ∀ line ∈ dedent lines, IsLine line := by
  obtain ⟨width, behind⟩ := exists_indents_dedent lines
  exact (forall_isLine_of_indents behind).1 lined

theorem length_flatten_of_indents (h : List.Forall₂ (Indents width) kept lines) :
    kept.flatten.length ≤ lines.flatten.length := by
  induction h with
  | nil => exact Nat.le_refl 0
  | cons first _ ih =>
    obtain ⟨margin, -, rfl, -⟩ := first
    simp only [List.flatten_cons, List.length_append]
    omega

/-- Lines lose one margin, blank ones all of theirs, and nothing else. To lose it twice makes no difference, nor does how
far to the right the lines stand together, and the text of a heredoc with these lines is the same. -/
theorem dedent_ignores_indentation {lines : List (List Char)} (lined : ∀ line ∈ lines, IsLine line) :
    (∀ line ∈ dedent lines, IsLine line) ∧ dedent (dedent lines) = dedent lines ∧
    ((∀ line ∈ lines, Text.isBlankText line = true) → dedent lines = lines) ∧
    ((∃ line ∈ lines, Text.isBlankText line = false) →
      (∃ width, List.Forall₂ (Indents width) (dedent lines) lines) ∧ Outdented (dedent lines) ∧
      ∀ width indented, List.Forall₂ (Indents width) lines indented → dedent indented = dedent lines ∧
        ∀ opener : Opener, opener.margin = .trimmed → opener.bodyText indented = opener.bodyText lines) := by
  refine ⟨isLine_dedent lined, dedent_dedent lines, dedent_of_blank, fun some => ?_⟩
  exact ⟨exists_indents_dedent lines, outdented_dedent some, fun width indented moved =>
    ⟨dedent_indented some moved, fun opener trimmed => bodyText_indented trimmed some moved⟩⟩

/-- Margins of spaces and tabs, an empty line, and blank lines with other white space. -/
theorem dedent_ignores_indentation_mixed :
    let lines := ["  a\n".toList, "\n".toList, " \u000b \n".toList, "\t b\n".toList, " \t\t\u00a0c\n".toList]
    let indented := ["\t  a\n".toList, "   \n".toList, " \u000b \n".toList, " \t b\n".toList, "\t \t\t\u00a0c\n".toList]
    (∀ line ∈ lines, IsLine line) ∧ (∃ line ∈ lines, Text.isBlankText line = false) ∧
      List.Forall₂ (Indents 1) lines indented ∧
      dedent lines = ["a\n".toList, "\n".toList, "\u000b \n".toList, "b\n".toList, "\t\u00a0c\n".toList] ∧
      dedent indented = dedent lines ∧ dedent (dedent lines) = dedent lines ∧
      (⟨"E", .trimmed, true⟩ : Opener).bodyText indented = "a\n\n\u000b \nb\n\t\u00a0c\n".toList := by
  intro lines indented
  have lined : ∀ line ∈ lines, IsLine line := by decide
  have some : ∃ line ∈ lines, Text.isBlankText line = false := by decide
  have moved : List.Forall₂ (Indents 1) lines indented :=
    .cons ⟨['\t'], rfl, rfl, fun _ => rfl⟩ (.cons ⟨"   ".toList, rfl, rfl, by decide⟩ (.cons ⟨[], rfl, rfl, by decide⟩
      (.cons ⟨[' '], rfl, rfl, fun _ => rfl⟩ (.cons ⟨['\t'], rfl, rfl, fun _ => rfl⟩ .nil))))
  obtain ⟨-, again, -, solid⟩ := dedent_ignores_indentation lined
  obtain ⟨same, text⟩ := (solid some).2.2 1 indented moved
  exact ⟨lined, some, moved, by decide, same, again, (text _ rfl).trans (by decide)⟩

end Heredoc

end Formulary
