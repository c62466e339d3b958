import Formulary.Proofs.Token.HeredocText

/-!
A heredoc whose name stands in single quotes holds its lines as they are, but for two backslashes in a row, of which
one is left.
-/

namespace Formulary

open Scan

/-- A text in which two backslashes in a row stand for one. -/
def halveBackslashes : List Char → List Char
  | '\\' :: '\\' :: rest => '\\' :: halveBackslashes rest
  | c :: rest => c :: halveBackslashes rest
  | [] => []

theorem halveBackslashes_cons {c : Char} {rest : List Char} (single : ¬(c = '\\' ∧ rest.head? = some '\\')) :
    halveBackslashes (c :: rest) = c :: halveBackslashes rest := by
  rw [halveBackslashes]
  rintro more rfl rfl
  exact single ⟨rfl, rfl⟩

theorem length_halveBackslashes_le (text : List Char) : (halveBackslashes text).length ≤ text.length := by
  fun_induction halveBackslashes text with
  | case1 rest ih =>
    simp only [List.length_cons]
    omega
  | case2 c rest _ ih => exact Nat.succ_le_succ ih
  | case3 => exact Nat.le_refl 0

/-- Only a text with two backslashes in a row changes. -/
theorem halveBackslashes_eq_self_iff (text : List Char) :
    halveBackslashes text = text ↔ ¬['\\', '\\'] <:+: text := by
  fun_induction halveBackslashes text with
  | case1 rest ih =>
    have shorter := length_halveBackslashes_le rest
    constructor
    · intro same
      have := congrArg List.length same
      simp only [List.length_cons] at this
      omega
    · exact fun single => (single (List.prefix_append ['\\', '\\'] rest).isInfix).elim
  | case2 c rest single ih =>
    have apart : ¬['\\', '\\'] <+: c :: rest := by
      rintro ⟨more, eq⟩
      obtain ⟨rfl, rfl⟩ := List.cons.inj eq
      exact single more rfl rfl
    rw [List.cons_inj_right, ih, List.infix_cons_iff, not_or]
    exact (and_iff_right apart).symm
  | case3 => simp

namespace Literal

open Body

/-- Without code and without a delimiter that could be escaped, only a backslash is taken for an escape. -/
theorem splitBody_verbatim {read : Reader} (text : List Char) (pos : Position) :
    splitBody read false none 0 pos text = .ok ((halveBackslashes text).foldr consText []) := by
  induction h : text.length using Nat.strongRecOn generalizing text pos with
  | ind length ih =>
    subst h
    match text with
    | [] => rfl
    | [c] =>
      by_cases backslash : c = '\\'
      · subst backslash
        rfl
      · rw [splitBody_next backslash rfl, halveBackslashes_cons (by simp)]
        rfl
    | c :: d :: more =>
      by_cases backslash : c = '\\'
      · subst backslash
        have later := ih more.length (by simp only [List.length_cons]; omega) more (pos.right 2) rfl
        have escape : splitBody read false none 0 pos ('\\' :: d :: more) = (splitBody read false none 0 (pos.right 2)
            more).map ((unescape false none d).foldr consText ·) := by simp [splitBody]
        rw [escape, later]
        by_cases twice : d = '\\'
        · subst twice
          rfl
        · rw [halveBackslashes_cons (by simp [twice]), halveBackslashes_cons (by simp [twice])]
          simp [unescape, twice, Except.map]
      · have later := ih (d :: more).length (Nat.lt_succ_self _) (d :: more) (pos.after c) rfl
        rw [splitBody_next backslash rfl, later, halveBackslashes_cons (c := c) fun both => backslash both.1]
        rfl

end Literal

/-- A heredoc whose name stands in single quotes, with these lines. -/
def verbatimHeredoc (name : List Char) (lines : List (List Char)) : List Char :=
  "<<'".toList ++ name ++ "'\n".toList ++ lines.flatMap (· ++ ['\n']) ++ name ++ ['\n']

namespace Heredoc

variable {name : List Char} {lines : List (List Char)} (begins : name.head?.any isNameStart = true)
  (parts : ∀ c ∈ name, isNamePart c = true)

def verbatimMark : Mark :=
  ⟨.flush, some '\'', name, .inr (.inr rfl), begins, parts, nofun⟩

theorem closedBy_verbatimMark {line : List Char} :
    (verbatimMark begins parts).opener.closedBy line = true ↔ ∃ n, line = name ++ List.replicate n '\r' :=
  (verbatimMark begins parts).closedBy_iff rfl

def verbatim (inner : ∀ line ∈ lines, '\n' ∉ line ∧ ∀ n, line ≠ name ++ List.replicate n '\r') : Document where
  toMark := verbatimMark begins parts
  lines := lines
  closing := name
  inner line among := by
    refine ⟨(inner line among).1, Bool.eq_false_iff.2 fun closes => ?_⟩
    obtain ⟨n, eq⟩ := (closedBy_verbatimMark begins parts).1 closes
    exact (inner line among).2 n eq
  closes := by
    refine ⟨fun among => absurd (parts _ among) (by decide), (closedBy_verbatimMark begins parts).2 ⟨0, ?_⟩⟩
    exact (List.append_nil name).symm

theorem spelling_verbatim (inner : ∀ line ∈ lines, '\n' ∉ line ∧ ∀ n, line ≠ name ++ List.replicate n '\r') :
    (verbatim begins parts inner).spelling ++ '\n' :: (verbatim begins parts inner).text = verbatimHeredoc name lines := by
  simp [verbatimHeredoc, Mark.spelling, Margin.sign, Document.text, Document.bodyLines, verbatim, verbatimMark, List.flatMap]

end Heredoc

/-- What a heredoc holds whose name stands in single quotes. Its closing line may end with carriage returns. -/
theorem tokenize_verbatimHeredoc {name : List Char} {lines : List (List Char)}
    (begins : name.head?.any Heredoc.isNameStart = true) (parts : ∀ c ∈ name, Heredoc.isNamePart c = true)
    (inner : ∀ line ∈ lines, '\n' ∉ line ∧ ∀ n, line ≠ name ++ List.replicate n '\r') :
    let body := lines.flatMap (· ++ ['\n'])
    tokenize (verbatimHeredoc name lines) .origin = .ok
      [⟨.string [.text (String.ofList (halveBackslashes body))], .origin, true⟩,
        ⟨.newline, ⟨1, name.length + 5⟩, false⟩, ⟨.endOfText, ⟨lines.length + 3, 1⟩, true⟩] ∧
    (halveBackslashes body = body ↔ ¬['\\', '\\'] <:+: body) := by
  refine ⟨?_, halveBackslashes_eq_self_iff _⟩
  have tokens := tokenize_document (Heredoc.verbatim begins parts inner) fun code pos =>
    Literal.segments_of_splitBody (Literal.splitBody_verbatim _ pos)
  have length : (Heredoc.verbatim begins parts inner).spelling.length = name.length + 4 := by
    simp [Heredoc.Mark.spelling, Heredoc.Margin.sign, Heredoc.verbatim, Heredoc.verbatimMark]
  rw [Heredoc.spelling_verbatim, length] at tokens
  exact tokens

/-- Signs of code, quotes and single backslashes are text. -/
theorem tokenize_verbatimHeredoc_script :
    tokenize (verbatimHeredoc ['E', '1'] ["#\x7ba\x7d'\\n".toList, [], " E1".toList]) .origin = .ok
      [⟨.string [.text "#\x7ba\x7d'\\n\n\n E1\n"], .origin, true⟩, ⟨.newline, ⟨1, 7⟩, false⟩,
        ⟨.endOfText, ⟨6, 1⟩, true⟩] := by
  have inner : ∀ line ∈ ["#\x7ba\x7d'\\n".toList, [], " E1".toList], '\n' ∉ line ∧ line.head? ≠ some 'E' := by decide
  refine (tokenize_verbatimHeredoc (by decide) (List.all_eq_true.1 rfl) fun line among => ?_).1
  obtain ⟨inline, head⟩ := inner line among
  exact ⟨inline, fun n eq => head (congrArg List.head? eq)⟩

/-- Of two backslashes in a row one is lost. -/
theorem exists_heredoc_not_verbatim :
    ∃ name lines, name.head?.any Heredoc.isNameStart = true ∧ (∀ c ∈ name, Heredoc.isNamePart c = true) ∧
      (∀ line ∈ lines, '\n' ∉ line ∧ line ≠ name) ∧ ∃ text,
        (tokenize (verbatimHeredoc name lines) .origin).map (List.map Token.lexeme) =
          .ok [.string [.text (String.ofList text)], .newline, .endOfText] ∧
        text ≠ lines.flatMap (· ++ ['\n']) := by
  refine ⟨['E'], [['a', '\\', '\\', 'b']], rfl, List.all_eq_true.1 rfl, by decide, ['a', '\\', 'b', '\n'], rfl, by decide⟩

end Formulary
