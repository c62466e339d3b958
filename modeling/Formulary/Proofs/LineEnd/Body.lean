import Formulary.Proofs.LineEnd.Text

/-! The bodies of literals and heredocs end at the same place, whatever ends their lines. -/

namespace Formulary.LineEnd

open Body Result

variable {c : Char} {skip depth : Nat} {quote : Option Char} {text more : List Char}

/-- The characters that end a line. -/
def Ends (c : Char) : Prop :=
  c = '\r' ∨ c = '\n'

instance (c : Char) : Decidable (Ends c) :=
  inferInstanceAs (Decidable (_ ∨ _))

theorem ends_return : Ends '\r' := .inl rfl

theorem ends_line : Ends '\n' := .inr rfl

theorem Ends.ne {d : Char} (ends : Ends c) (inner : ¬Ends d) : c ≠ d := by
  rintro rfl
  exact inner ends

theorem not_ends_of_none : ∀ q ∈ (none : Option Char), ¬Ends q := by
  simp

theorem length_crlf_take_line (skip : Nat) (more : List Char) :
    (crlf (('\n' :: more).take (skip + 1))).length = (crlf (more.take skip)).length + 2 := rfl

theorem length_crlf_take (inline : c ≠ '\n') (skip : Nat) (more : List Char) :
    (crlf ((c :: more).take (skip + 1))).length = (crlf (more.take skip)).length + 1 := by
  rw [List.take_succ_cons, crlf_cons inline, List.length_cons]

/-! Code -/

theorem codeLengthFrom_skip (c : Char) (text : List Char) : Literal.codeLengthFrom (skip + 1) depth quote (c :: text) =
    (Literal.codeLengthFrom skip depth quote text).map (· + 1) := rfl

theorem codeLengthFrom_ends (ends : Ends c) (apart : ∀ q ∈ quote, ¬Ends q) (text : List Char) :
    Literal.codeLengthFrom 0 depth quote (c :: text) = (Literal.codeLengthFrom 0 depth quote text).map (· + 1) := by
  have plain : c ≠ '\\' := ends.ne (by decide)
  have double : c ≠ '"' := ends.ne (by decide)
  have single : c ≠ '\'' := ends.ne (by decide)
  have opener : c ≠ '\x7b' := ends.ne (by decide)
  have closer : c ≠ '\x7d' := ends.ne (by decide)
  cases quote with
  | none => simp [Literal.codeLengthFrom, plain, double, single, opener, closer]
  | some q => simp [Literal.codeLengthFrom, plain, ends.ne (apart q rfl)]

/-- The end of a line is escaped as a whole or by its carriage return: the newline alone means nothing. -/
theorem codeLengthFrom_escaped (apart : ∀ q ∈ quote, ¬Ends q) (text : List Char) :
    Literal.codeLengthFrom 1 depth quote (crlf text) =
      Literal.codeLengthFrom (crlf (text.take 1)).length depth quote (crlf text) := by
  cases text with
  | nil => rfl
  | cons c more =>
    by_cases line : c = '\n'
    · subst line
      rw [crlf_line, length_crlf_take_line, codeLengthFrom_skip, codeLengthFrom_skip,
        codeLengthFrom_ends ends_line apart]
      rfl
    · rw [length_crlf_take line]
      rfl

theorem codeLengthFrom_crlf (apart : ∀ q ∈ quote, ¬Ends q) (skip : Nat) (text : List Char) :
    Literal.codeLengthFrom (crlf (text.take skip)).length depth quote (crlf text) =
      (Literal.codeLengthFrom skip depth quote text).map fun n => (crlf (text.take n)).length := by
  induction text generalizing skip depth quote with
  | nil => cases skip <;> rfl
  | cons c more ih =>
    by_cases line : c = '\n'
    · subst line
      have behind (skip : Nat) (quote : Option Char) (apart : ∀ q ∈ quote, ¬Ends q) :
          (Literal.codeLengthFrom (crlf (more.take skip)).length depth quote (crlf more)).map (· + 2) =
            ((Literal.codeLengthFrom skip depth quote more).map (· + 1)).map
              fun n => (crlf (('\n' :: more).take n)).length := by
        rw [ih apart, Option.map_map, Option.map_map]
        rfl
      cases skip with
      | succ skip =>
        rw [crlf_line, length_crlf_take_line, codeLengthFrom_skip, codeLengthFrom_skip, codeLengthFrom_skip,
          ← behind skip quote apart, Option.map_map]
        rfl
      | zero =>
        rw [crlf_line, codeLengthFrom_ends ends_line apart, ← behind 0 quote apart]
        refine (codeLengthFrom_ends ends_return apart _).trans ?_
        rw [codeLengthFrom_ends ends_line apart, Option.map_map]
        rfl
    · have behind (skip depth : Nat) (quote : Option Char) (apart : ∀ q ∈ quote, ¬Ends q) :
          (Literal.codeLengthFrom (crlf (more.take skip)).length depth quote (crlf more)).map (· + 1) =
            ((Literal.codeLengthFrom skip depth quote more).map (· + 1)).map
              fun n => (crlf ((c :: more).take n)).length := by
        rw [ih apart, Option.map_map, Option.map_map]
        simp only [Function.comp_def, length_crlf_take line]
      cases skip with
      | succ skip =>
        rw [crlf_cons line, length_crlf_take line, codeLengthFrom_skip, codeLengthFrom_skip]
        exact behind skip depth quote apart
      | zero =>
        rw [crlf_cons line]
        show Literal.codeLengthFrom 0 depth quote (c :: crlf more) = _
        unfold Literal.codeLengthFrom
        dsimp only
        split
        · rw [codeLengthFrom_escaped apart]
          exact behind 1 depth quote apart
        cases quote with
        | some q =>
          dsimp only
          split
          · exact behind 0 depth none not_ends_of_none
          · exact behind 0 depth (some q) apart
        | none =>
          dsimp only
          split
          · rename_i quotes
            refine behind 0 depth (some c) ?_
            intro q member
            obtain rfl := Option.some.inj member
            obtain rfl | rfl := quotes <;> decide
          split
          · exact behind 0 (depth + 1) none not_ends_of_none
          split
          · cases depth with
            | zero => rfl
            | succ depth => exact behind 0 depth none not_ends_of_none
          · exact behind 0 depth none not_ends_of_none

theorem codeLength_crlf (text : List Char) :
    Literal.codeLength (crlf text) = (Literal.codeLength text).map fun n => (crlf (text.take n)).length :=
  codeLengthFrom_crlf not_ends_of_none 0 text

/-! Literals -/

/-- Delimiters that end no line. -/
def Inline (marks : Literal.Delimiters) : Prop :=
  (∀ c ∈ marks.opener, ¬Ends c) ∧ ¬Ends marks.closer

variable {marks : Literal.Delimiters} {pos : Position}

theorem readBody_skip (c : Char) (text : List Char) : Literal.readBody marks (skip + 1) depth pos (c :: text) =
    (Literal.readBody marks skip depth (pos.after c) text).map fun (body, after) => (c :: body, after) := rfl

theorem readBody_ends (ends : Ends c) (inline : Inline marks) (text : List Char) :
    Literal.readBody marks 0 depth pos (c :: text) =
      (Literal.readBody marks 0 depth (pos.after c) text).map fun (body, after) => (c :: body, after) := by
  have plain : c ≠ '\\' := ends.ne (by decide)
  have hash : c ≠ '#' := ends.ne (by decide)
  have opener : marks.opener ≠ some c := fun opens => inline.1 c opens ends
  have closer : c ≠ marks.closer := ends.ne inline.2
  simp [Literal.readBody, Literal.opensCode, plain, hash, opener, closer]

theorem readBody_escaped (inline : Inline marks) (text : List Char) :
    Literal.readBody marks 1 depth pos (crlf text) =
      Literal.readBody marks (crlf (text.take 1)).length depth pos (crlf text) := by
  cases text with
  | nil => rfl
  | cons c more =>
    by_cases line : c = '\n'
    · subst line
      rw [crlf_line, length_crlf_take_line, readBody_skip, readBody_skip, readBody_ends ends_line inline]
      rfl
    · rw [length_crlf_take line]
      rfl

theorem opensCode_crlf (c : Char) (text : List Char) : Literal.opensCode c (crlf text) = Literal.opensCode c text := by
  have same : (crlf text).head? = some '\x7b' ↔ text.head? = some '\x7b' := head_eq_crlf (by decide) (by decide)
  simp only [Literal.opensCode, same]

/-- Code takes its braces along. -/
theorem length_crlf_take_code {length : Nat} (found : Literal.codeLength text = some length) :
    (crlf (('\x7b' :: text).take (length + 2))).length = (crlf (text.take length)).length + 2 := by
  have brace : text[length]? = some '\x7d' := brace_of_codeLengthFrom found
  have taken : text.take (length + 1) = text.take length ++ ['\x7d'] := by
    rw [List.take_add_one, brace]
    rfl
  rw [length_crlf_take (by decide), taken, crlf_append, List.length_append]
  rfl

/-- Two readings of a body, the text of one with the other line ends. -/
def SameBody (found found' : List Char × List Char) : Prop :=
  found'.1 = crlf found.1 ∧ found'.2 = crlf found.2

/-- A body ends where it ends with the other line ends. -/
theorem readBody_crlf (inline : Inline marks) (skip depth : Nat) (pos pos' : Position) (text : List Char) :
    Both SameBody (Literal.readBody marks skip depth pos text)
      (Literal.readBody marks (crlf (text.take skip)).length depth pos' (crlf text)) := by
  induction text generalizing skip depth pos pos' with
  | nil => cases skip <;> trivial
  | cons c more ih =>
    by_cases line : c = '\n'
    · subst line
      have go (skip : Nat) (pos pos' : Position) : Both SameBody
          ((Literal.readBody marks skip depth pos more).map fun (body, after) => ('\n' :: body, after))
          (((Literal.readBody marks (crlf (more.take skip)).length depth pos' (crlf more)).map
            fun (body, after) => ('\n' :: body, after)).map fun (body, after) => ('\r' :: body, after)) := by
        rw [map_map]
        refine (ih skip depth pos pos').map fun found found' _ same => ?_
        exact ⟨congrArg (fun body => '\r' :: '\n' :: body) same.1, same.2⟩
      cases skip with
      | succ skip =>
        rw [crlf_line, length_crlf_take_line, readBody_skip, readBody_skip, readBody_skip]
        exact go skip _ _
      | zero =>
        rw [crlf_line, readBody_ends ends_line inline]
        show Both _ _ (Literal.readBody marks 0 depth pos' _)
        rw [readBody_ends ends_return inline, readBody_ends ends_line inline]
        exact go 0 _ _
    · have go (skip depth : Nat) (pos pos' : Position) : Both SameBody
          ((Literal.readBody marks skip depth pos more).map fun (body, after) => (c :: body, after))
          ((Literal.readBody marks (crlf (more.take skip)).length depth pos' (crlf more)).map
            fun (body, after) => (c :: body, after)) :=
        (ih skip depth pos pos').map fun found found' _ same =>
          ⟨(congrArg (c :: ·) same.1).trans (crlf_cons line found.1).symm, same.2⟩
      cases skip with
      | succ skip =>
        rw [crlf_cons line, length_crlf_take line, readBody_skip, readBody_skip]
        exact go skip depth _ _
      | zero =>
        rw [crlf_cons line]
        show Both _ _ (Literal.readBody marks 0 depth pos' _)
        unfold Literal.readBody
        dsimp only
        rw [opensCode_crlf]
        split
        · rw [readBody_escaped inline]
          exact go 1 depth _ _
        split
        · rename_i embeds
          obtain ⟨inner, rfl⟩ : ∃ inner, more = '\x7b' :: inner := by
            have opens : marks.embeds = true ∧ c = '#' ∧ more.head? = some '\x7b' := by
              simpa [Literal.opensCode] using embeds
            exact List.head?_eq_some_iff.1 opens.2.2
          have tail : (crlf ('\x7b' :: inner)).tail = crlf inner := rfl
          rw [List.tail_cons, tail, codeLength_crlf]
          cases found : Literal.codeLength inner with
          | none => trivial
          | some length =>
            have through := go (length + 2) depth (pos.after c) (pos'.after c)
            rwa [length_crlf_take_code found] at through
        split
        · exact go 0 (depth + 1) _ _
        split
        · cases depth with
          | zero => exact ⟨rfl, rfl⟩
          | succ depth => exact go 0 depth _ _
        · exact go 0 depth _ _

/-! Heredocs -/

theorem closedBy_return (opener : Heredoc.Opener) (line : List Char) :
    opener.closedBy (line ++ ['\r']) = opener.closedBy line := by
  have same : Heredoc.dropTrailing '\r' (line ++ ['\r']) = Heredoc.dropTrailing '\r' line := by
    simp [Heredoc.dropTrailing]
  unfold Heredoc.Opener.closedBy
  rw [same]

/-- The lines of a heredoc, and where it ends. -/
theorem takeBody_crlf {opener : Heredoc.Opener} {line : List Char} (inline : '\n' ∉ line) (text : List Char) :
    Heredoc.takeBody opener line (crlf text) =
      (Heredoc.takeBody opener line text).map fun (lines, after) => (lines.map crlf, crlf after) := by
  induction text generalizing line with
  | nil =>
    unfold Heredoc.takeBody
    show (if _ then _ else _) = _
    split <;> rfl
  | cons c more ih =>
    by_cases newline : c = '\n'
    · subst newline
      have ended : crlf (line.reverse ++ ['\n']) = ('\r' :: line).reverse ++ ['\n'] := by
        rw [crlf_append_of_inline (by simpa using inline), List.reverse_cons, List.append_assoc]
        rfl
      rw [crlf_line, Heredoc.takeBody, if_neg (by decide), Heredoc.takeBody, Heredoc.takeBody, if_pos rfl, if_pos rfl,
        List.reverse_cons, closedBy_return]
      split
      · rfl
      · rw [ih List.not_mem_nil, Option.map_map, Option.map_map, ← List.reverse_cons, ← ended]
        rfl
    · have longer : '\n' ∉ c :: line := by
        rw [List.mem_cons, not_or]
        exact ⟨Ne.symm newline, inline⟩
      rw [crlf_cons newline, Heredoc.takeBody, Heredoc.takeBody, if_neg newline, if_neg newline, ih longer]

end Formulary.LineEnd
