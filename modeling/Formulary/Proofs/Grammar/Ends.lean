import Formulary.Proofs.Grammar.Operands
import Formulary.Proofs.Grammar.Parses

/-! Where an operand and where an expression ends: at every token that does not go on with it. -/

namespace Formulary.Grammar

/-- Whether a token belongs to the operand before it. -/
def goesWithOperand (token : Token) : Bool :=
  token.lexeme.isDot || token.lexeme.isDoubleColon ||
    !token.spaced && (token.lexeme.isOpening .round || token.lexeme.isOpening .square)

/-- Whether a token goes on with the expression before it. -/
def goesWithExpression (token : Token) : Bool :=
  goesWithOperand token || token.lexeme.isQuestion || token.lexeme.operator?.any fun op =>
    (precedence? op).isSome || ["..", "...", "="].contains op || assignmentOperators.contains op

/-- Tokens that are all newlines. -/
def Newlines (tokens : List Token) : Prop :=
  ∀ token ∈ tokens, token.lexeme.isNewline = true

variable {state : State} {token : Token}

theorem run_advance_on (state : State) (token : Token) (tokens : List Token) :
    advance.run (state.on (token :: tokens)) = .ok (token, state.on tokens) := rfl

theorem run_discard_on (state : State) (token : Token) (tokens : List Token) :
    (discard advance).run (state.on (token :: tokens)) = .ok ((), state.on tokens) := rfl

theorem trailers_of_not {base : Node} (ends : goesWithOperand state.next = false) :
    Parses (.trailers base) state base state := by
  unfold goesWithOperand at ends
  obtain ⟨others, brackets⟩ := Bool.or_eq_false_iff.1 ends
  obtain ⟨dot, colons⟩ := Bool.or_eq_false_iff.1 others
  have square : (state.next.lexeme.isOpening .square && !state.next.spaced) = false := by
    cases spaced : state.next.spaced <;> simp_all
  refine ⟨1, ?_⟩
  change (trailers (rule 0) base).run state = _
  rw [trailers, run_bind_of_ok (run_peek state), dot, colons, square]
  rfl

theorem callParen_of_not (ends : goesWithOperand state.next = false) :
    (state.next.lexeme.isOpening .round && !state.next.spaced) = false := by
  unfold goesWithOperand at ends
  cases spaced : state.next.spaced <;> simp_all

theorem goesWithOperand_of_expression (ends : goesWithExpression token = false) : goesWithOperand token = false := by
  unfold goesWithExpression at ends
  exact (Bool.or_eq_false_iff.1 (Bool.or_eq_false_iff.1 ends).1).1

/-- What an operator that does not go on with an expression is not. -/
theorem operator_of_ends {op : String} (ends : goesWithExpression token = false)
    (sign : token.lexeme.operator? = some op) : precedence? op = none ∧ ["..", "...", "="].contains op = false ∧
      assignmentOperators.contains op = false := by
  unfold goesWithExpression at ends
  rw [sign, Option.any_some] at ends
  obtain ⟨signs, assigns⟩ := Bool.or_eq_false_iff.1 (Bool.or_eq_false_iff.1 ends).2
  obtain ⟨table, others⟩ := Bool.or_eq_false_iff.1 signs
  exact ⟨Option.isSome_eq_false_iff.1 table |> Option.isNone_iff_eq_none.1, others, assigns⟩

/-! Operators -/

theorem binaryRest_stays {least : Nat} {left : Node}
    (h : ∀ op precedence, state.next.lexeme.operator? = some op → precedence? op = some precedence →
      precedence < least) :
    Parses (.binaryRest least left) state left state := by
  refine ⟨1, ?_⟩
  change (binaryRest (rule 0) least left).run state = _
  rw [binaryRest, run_bind_of_ok (run_peek state)]
  cases sign : state.next.lexeme.operator? with
  | none => rfl
  | some op =>
    dsimp only
    cases table : precedence? op with
    | none => rfl
    | some precedence =>
      dsimp only
      rw [if_pos (h op precedence sign table)]
      rfl

theorem run_skipNewlines {newlines tokens : List Token} (skipped : Newlines newlines)
    (stops : (state.on tokens).next.lexeme.isNewline = false) :
    skipNewlines.run (state.on (newlines ++ tokens)) = .ok ((), state.on tokens) := by
  have kept : (skipWhile Lexeme.isNewline).run (state.on tokens) = .ok ((), state.on tokens) :=
    run_skipWhile_of_not stops
  rw [skipNewlines, run_skipWhile, State.ahead_on, List.dropWhile_append_of_pos skipped]
  exact kept

theorem expression_of_binary {tree : Node} {after : State} (read : Parses (.binary 0) state tree after)
    (ends : goesWithExpression after.next = false) : Parses .expression state tree after := by
  have sign (op : String) (special : ["..", "...", "="].contains op = true) :
      after.next.lexeme.isOperator op = false := by
    apply decide_eq_false
    intro here
    rw [(operator_of_ends ends here).2.1] at special
    contradiction
  have question : after.next.lexeme.isQuestion = false := by
    unfold goesWithExpression at ends
    exact (Bool.or_eq_false_iff.1 (Bool.or_eq_false_iff.1 ends).1).2
  have choice : Parses .choice state tree after := by
    apply Parses.of_step
    filter_upwards [read.eventually] with fuel binary
    have range : (range (rule fuel)).run state = .ok (tree, after) := by
      rw [range, run_bind_of_ok binary, run_bind_of_ok (run_peek after), sign ".." rfl, sign "..." rfl]
      rfl
    change (Grammar.choice (rule fuel)).run state = _
    rw [Grammar.choice, run_bind_of_ok range, run_bind_of_ok (run_check after _), question]
    rfl
  apply Parses.of_step
  filter_upwards [choice.eventually] with fuel choice
  change (expression (rule fuel)).run state = _
  rw [expression, run_bind_of_ok choice, run_bind_of_ok (run_peek after)]
  cases here : after.next.lexeme.operator? with
  | none => rfl
  | some op =>
    obtain ⟨-, special, assigns⟩ := operator_of_ends ends here
    have plain : op ≠ "=" := by
      rintro rfl
      contradiction
    dsimp only
    rw [if_neg plain, assigns]
    rfl

/-- What signs are read from is a whole expression where no operator follows. -/
theorem expression_of_unary {node : Node} {after : State} (read : Parses .unary state node after)
    (ends : goesWithExpression after.next = false) : Parses .expression state node after := by
  have stays : Parses (.binaryRest 0 node) after node after := by
    apply binaryRest_stays
    intro op precedence sign table
    have none := (operator_of_ends ends sign).1
    rw [table] at none
    contradiction
  refine expression_of_binary ?_ ends
  apply Parses.of_step
  filter_upwards [read.eventually, stays.eventually] with fuel unary stays
  exact (run_bind_of_ok unary _).trans stays

/-- An operand is a whole expression where no operator stands around it. -/
theorem expression_of_operand_alone {node : Node} {after : State} (read : Parses .operand state node after)
    (starts : state.next.lexeme.operator? = none) (ends : goesWithExpression after.next = false) :
    Parses .expression state node after := by
  refine expression_of_unary ?_ ends
  apply Parses.of_step
  filter_upwards [read.eventually] with fuel operand
  change (Grammar.unary (rule fuel)).run state = _
  rw [Grammar.unary, run_bind_of_ok (run_peek state), starts]
  exact operand

/-! Statements -/

/-- Whether a word goes on with the statement before it. -/
def goesWithStatement (lexeme : Lexeme Token) : Bool :=
  lexeme.keyword?.any fun word => ["and", "or", "if", "unless", "while", "until", "rescue"].contains word

theorem statement_of_expression {node : Node} {after : State} (read : Parses .expression state node after)
    (starts : state.next.lexeme.isKeyword "not" = false) (ends : goesWithStatement after.next.lexeme = false) :
    Parses .statement state node after := by
  have negation : Parses .negation state node after := by
    apply Parses.of_step
    filter_upwards [read.eventually] with fuel read
    change (Grammar.negation (rule fuel)).run state = _
    rw [Grammar.negation, run_bind_of_ok (run_peek state), starts]
    exact read
  have other (word : String)
      (modifies : word ∈ ["and", "or", "if", "unless", "while", "until", "rescue"]) :
      after.next.lexeme.isKeyword word = false := by
    cases here : after.next.lexeme with
    | keyword found =>
      apply decide_eq_false
      rintro rfl
      rw [goesWithStatement, here, Lexeme.keyword?, Option.any_some, List.contains_iff_mem.2 modifies] at ends
      contradiction
    | _ => rfl
  have stops : Parses (.connectiveRest node) after node after :=
    ⟨1, connectiveRest_stops (other "and" (by decide)) (other "or" (by decide))⟩
  have unmodified : Parses (.modifiers node) after node after :=
    ⟨1, modifiers_stops fun word mem => other word (List.mem_cons_of_mem _ (List.mem_cons_of_mem _ mem))⟩
  have connective : Parses .connective state node after := by
    apply Parses.of_step
    filter_upwards [negation.eventually, stops.eventually] with fuel negation stops
    exact (run_bind_of_ok negation _).trans stops
  apply Parses.of_step
  filter_upwards [connective.eventually, unmodified.eventually] with fuel connective unmodified
  exact (run_bind_of_ok connective _).trans unmodified

end Formulary.Grammar
