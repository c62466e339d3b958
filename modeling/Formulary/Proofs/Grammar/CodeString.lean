import Formulary.Proofs.Grammar.Continuation
import Formulary.Proofs.Grammar.Ends
import Formulary.Proofs.Grammar.Unextended

/-!
A statement that is a string of code alone. The code is read as the statements of its tokens, in the scopes around the
string, and what it declares is declared behind the string as well.
-/

namespace Formulary.Grammar

variable {state mid after last : State} {tokens : List Token} {final : Token} {pos place : Position} {spaced : Bool}
  {node : Node} {piece : Piece Node} {found statements : List Node} {scopes : List Scope} {barred : Nat}

theorem State.within_append (tokens : List Token) (final : Token) (pos : Position) (scopes : List Scope) :
    State.within (tokens ++ [final]) pos scopes = ⟨tokens, final, scopes, 0⟩ := by
  simp [State.within]

/-! The code -/

theorem parses_code_iff : Parses (.code tokens pos) state piece after ↔ ∃ statements last,
    Sequence (.within tokens pos state.scopes) statements last ∧ piece = .code pos statements ∧
      after = { state with scopes := last.scopes } := by
  constructor
  · intro read
    obtain ⟨fuel, run⟩ := read.exists_step
    obtain ⟨statements, last, run, -, same⟩ := run_embedded_eq_ok_iff.1 run
    exact ⟨statements, last, parses_statements_iff.1 ⟨fuel, run⟩, same⟩
  · rintro ⟨statements, last, read, same⟩
    apply Parses.of_step
    filter_upwards [(parses_statements_iff.2 read).eventually] with fuel run
    exact run_embedded_eq_ok_iff.2 ⟨statements, last, run, read.ends, same⟩

/-! The string -/

/-- A statement begins with an operand, unless a sign or `not` stands before it. -/
theorem exists_primary (read : Parses .statement state node after) (word : state.next.lexeme.isKeyword "not" = false)
    (sign : state.next.lexeme.operator? = none) : ∃ fuel result, (primary (rule fuel)).run state = .ok result := by
  obtain ⟨fuel, run⟩ := read.exists_step
  obtain ⟨_, _, connective, -⟩ := run_bind_eq_ok_iff.1 run
  obtain ⟨fuel, run⟩ := Parses.exists_step ⟨fuel, connective⟩
  obtain ⟨_, _, negation, -⟩ := run_bind_eq_ok_iff.1 run
  obtain ⟨fuel, run⟩ := Parses.exists_step ⟨fuel, negation⟩
  change (Grammar.negation (rule fuel)).run state = _ at run
  rw [Grammar.negation, run_bind_of_ok (run_peek state), word] at run
  obtain ⟨fuel, run⟩ := Parses.exists_step ⟨fuel, run⟩
  obtain ⟨_, _, choice, -⟩ := run_bind_eq_ok_iff.1 run
  obtain ⟨fuel, run⟩ := Parses.exists_step ⟨fuel, choice⟩
  obtain ⟨_, _, range, -⟩ := run_bind_eq_ok_iff.1 run
  obtain ⟨_, _, binary, -⟩ := run_bind_eq_ok_iff.1 range
  obtain ⟨fuel, run⟩ := Parses.exists_step ⟨fuel, binary⟩
  obtain ⟨_, _, unary, -⟩ := run_bind_eq_ok_iff.1 run
  obtain ⟨fuel, run⟩ := Parses.exists_step ⟨fuel, unary⟩
  change (Grammar.unary (rule fuel)).run state = _ at run
  rw [Grammar.unary, run_bind_of_ok (run_peek state), sign] at run
  obtain ⟨fuel, run⟩ := Parses.exists_step ⟨fuel, run⟩
  obtain ⟨node, after, primary, -⟩ := run_bind_eq_ok_iff.1 run
  exact ⟨fuel, (node, after), primary⟩

/-- A string of code alone, and behind it the end of a text. -/
def State.codeString (tokens : List Token) (place pos : Position) (spaced : Bool) (final : Token) (scopes : List Scope)
    (barred : Nat) : State :=
  ⟨[⟨.string [.code tokens place], pos, spaced⟩], final, scopes, barred⟩

theorem statement_codeString (ended : final.lexeme = .endOfText)
    (read : Sequence (.within tokens place scopes) statements last) :
    Parses .statement (.codeString tokens place pos spaced final scopes barred) (.string pos [.code place statements])
      ⟨[], final, last.scopes, barred⟩ := by
  have spent : (⟨[], final, last.scopes, barred⟩ : State).next.lexeme = .endOfText := ended
  have code : Parses (.code tokens place) ⟨[], final, scopes, barred⟩ (.code place statements)
      ⟨[], final, last.scopes, barred⟩ := parses_code_iff.2 ⟨statements, last, read, rfl, rfl⟩
  have alone : Parses .adjacent ⟨[], final, last.scopes, barred⟩ [] ⟨[], final, last.scopes, barred⟩ := by
    refine ⟨1, ?_⟩
    change (adjacent (rule 0)).run _ = _
    rw [adjacent, run_bind_of_ok (run_peek _), spent]
    rfl
  have stops : goesWithExpression (⟨[], final, last.scopes, barred⟩ : State).next = false := by
    simp [goesWithExpression, goesWithOperand, spent, Lexeme.isDot, Lexeme.isDoubleColon, Lexeme.isOpening,
      Lexeme.isQuestion, Lexeme.operator?]
  have trailers : Parses (.trailers (.string pos [.code place statements])) ⟨[], final, last.scopes, barred⟩
      (.string pos [.code place statements]) ⟨[], final, last.scopes, barred⟩ :=
    trailers_of_not (goesWithOperand_of_expression stops)
  have operand : Parses .operand (.codeString tokens place pos spaced final scopes barred)
      (.string pos [.code place statements]) ⟨[], final, last.scopes, barred⟩ := by
    apply Parses.of_step
    filter_upwards [code.eventually, alone.eventually, trailers.eventually] with fuel code alone trailers
    have pieces : (pieces (rule fuel) [.code tokens place]).run ⟨[], final, scopes, barred⟩ =
        .ok ([.code place statements], ⟨[], final, last.scopes, barred⟩) := by
      rw [Grammar.pieces, List.mapM_cons, run_bind_of_ok code]
      rfl
    have literal : (stringLiteral (rule fuel) pos [.code tokens place]).run ⟨[], final, scopes, barred⟩ =
        .ok (.string pos [.code place statements], ⟨[], final, last.scopes, barred⟩) := by
      rw [stringLiteral, run_bind_of_ok pieces, run_bind_of_ok alone]
      rfl
    have primary : (primary (rule fuel)).run (.codeString tokens place pos spaced final scopes barred) =
        .ok (.string pos [.code place statements], ⟨[], final, last.scopes, barred⟩) := literal
    exact (run_bind_of_ok primary _).trans trailers
  refine statement_of_expression (expression_of_operand_alone operand rfl stops) rfl ?_
  rw [goesWithStatement, spent]
  rfl

/-- The statements of a text that is a string of code are the string, with the statements of the code. -/
theorem sequence_codeString_iff (ended : final.lexeme = .endOfText) :
    Sequence (.codeString tokens place pos spaced final scopes barred) found after ↔ ∃ statements last,
      Sequence (.within tokens place scopes) statements last ∧ found = [.string pos [.code place statements]] ∧
        after = ⟨[], final, last.scopes, barred⟩ := by
  have whole {statements : List Node} {last : State} (read : Sequence (.within tokens place scopes) statements last) :
      Sequence (.codeString tokens place pos spaced final scopes barred) [.string pos [.code place statements]]
        ⟨[], final, last.scopes, barred⟩ :=
    .cons nofun (statement_codeString ended read) (.inl ended) (.done ended)
  constructor
  · intro read
    have begins := read
    cases begins with
    | done ends => cases ends
    | cons _ first =>
      obtain ⟨fuel, ⟨node, after'⟩, primary⟩ := exists_primary first rfl rfl
      have literal : (stringLiteral (rule fuel) pos [.code tokens place]).run ⟨[], final, scopes, barred⟩ =
        .ok (node, after') := primary
      obtain ⟨_, _, found, -⟩ := run_bind_eq_ok_iff.1 literal
      rw [pieces, List.mapM_cons] at found
      obtain ⟨piece, mid, code, -⟩ := run_bind_eq_ok_iff.1 found
      obtain ⟨statements, last, inner, -⟩ := parses_code_iff.1 ⟨fuel, code⟩
      have same := (parses_statements_iff.2 read).unique (parses_statements_iff.2 (whole inner))
      exact ⟨statements, last, inner, same⟩
  · rintro ⟨statements, last, read, rfl, rfl⟩
    exact whole read

end Formulary.Grammar
