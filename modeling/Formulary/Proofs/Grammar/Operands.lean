import Formulary.Proofs.Grammar.Run

/-! An operand with no operator around it, where a statement or an argument is read. -/

namespace Formulary.Grammar

variable {n : Nat} {state after : State}

theorem binaryRest_stops {left : Node} (least : Nat) (h : state.next.lexeme.operator? = none) :
    (rule (n + 1) (.binaryRest least left)).run state = .ok (left, state) := by
  change (binaryRest (rule n) least left).run state = _
  simp [binaryRest, h]

theorem connectiveRest_stops {left : Node} (hand : state.next.lexeme.isKeyword "and" = false)
    (hor : state.next.lexeme.isKeyword "or" = false) :
    (rule (n + 1) (.connectiveRest left)).run state = .ok (left, state) := by
  change (connectiveRest (rule n) left).run state = _
  rw [connectiveRest, run_bind_of_ok (run_peek state)]
  cases hl : state.next.lexeme with
  | keyword word => simp_all [Lexeme.keyword?, Lexeme.isKeyword]
  | _ => rfl

theorem modifiers_stops {node : Node} (h : ∀ word ∈ ["if", "unless", "while", "until", "rescue"],
    state.next.lexeme.isKeyword word = false) :
    (rule (n + 1) (.modifiers node)).run state = .ok (node, state) := by
  change (modifiers (rule n) node).run state = _
  rw [modifiers, run_bind_of_ok (run_peek state)]
  cases hl : state.next.lexeme with
  | keyword word =>
    simp only [hl, Lexeme.isKeyword, List.forall_mem_cons, decide_eq_false_iff_not] at h
    simp only [Lexeme.keyword?]
    split <;> simp_all
  | _ => rfl

theorem expression_of_operand {node : Node} (read : (rule n .operand).run state = .ok (node, after))
    (starts : state.next.lexeme.operator? = none) (ends : after.next.lexeme.operator? = none)
    (question : after.next.lexeme.isQuestion = false) :
    (rule (n + 4) .expression).run state = .ok (node, after) := by
  have unary : (rule (n + 1) .unary).run state = .ok (node, after) := by
    change (unary (rule n)).run state = _
    simp only [Grammar.unary, StateT.run_bind, run_peek, Result.ok_bind, starts, read]
  have binary : (rule (n + 2) (.binary 0)).run state = .ok (node, after) := by
    change (binary (rule (n + 1)) 0).run state = _
    rw [Grammar.binary, run_bind_of_ok unary, binaryRest_stops 0 ends]
  have choice : (rule (n + 3) .choice).run state = .ok (node, after) := by
    change (choice (rule (n + 2))).run state = _
    have range : (range (rule (n + 2))).run state = .ok (node, after) := by
      rw [Grammar.range, run_bind_of_ok binary]
      simp [Lexeme.isOperator, ends]
    rw [Grammar.choice, run_bind_of_ok range]
    simp [question]
  change (expression (rule (n + 3))).run state = _
  rw [expression, run_bind_of_ok choice]
  simp [ends]

theorem connective_of_expression {node : Node} (read : (rule n .expression).run state = .ok (node, after))
    (starts : state.next.lexeme.isKeyword "not" = false) (hand : after.next.lexeme.isKeyword "and" = false)
    (hor : after.next.lexeme.isKeyword "or" = false) :
    (rule (n + 2) .connective).run state = .ok (node, after) := by
  have negation : (rule (n + 1) .negation).run state = .ok (node, after) := by
    change (negation (rule n)).run state = _
    simp [Grammar.negation, starts, read]
  change (connective (rule (n + 1))).run state = _
  rw [connective, run_bind_of_ok negation, connectiveRest_stops hand hor]

/-! Where a statement ends -/

/-- The words that may follow a statement. -/
def endWords : List String :=
  ["if", "unless", "while", "until", "elsif", "else", "end"]

/-- What may follow a statement or a condition. -/
def endsStatement : Lexeme Token → Bool
  | .newline | .endOfText => true
  | .keyword word => endWords.contains word
  | _ => false

/-- What may follow an argument of a command. -/
def endsArgument (lexeme : Lexeme Token) : Bool :=
  lexeme.isComma || endsStatement lexeme

section Ends

variable {lexeme : Lexeme Token} {α : Type} {test : Lexeme Token → α} {value : α}

theorem test_of_endsStatement (h : endsStatement lexeme) (newline : test .newline = value)
    (endOfText : test .endOfText = value) (words : ∀ word ∈ endWords, test (.keyword word) = value) :
    test lexeme = value := by
  cases lexeme with
  | newline => exact newline
  | endOfText => exact endOfText
  | keyword word => exact words word (List.contains_iff_mem.1 h)
  | _ => cases h

theorem test_of_endsArgument (h : endsArgument lexeme) (comma : test .comma = value) (newline : test .newline = value)
    (endOfText : test .endOfText = value) (words : ∀ word ∈ endWords, test (.keyword word) = value) :
    test lexeme = value := by
  cases lexeme with
  | comma => exact comma
  | _ => exact test_of_endsStatement (by simpa [endsArgument, Lexeme.isComma] using h) newline endOfText words

theorem endsArgument_of_endsStatement (h : endsStatement lexeme) : endsArgument lexeme := by
  rw [endsArgument, h, Bool.or_true]

end Ends

theorem trailers_stops {base : Node} (h : endsArgument state.next.lexeme) :
    (rule (n + 1) (.trailers base)).run state = .ok (base, state) := by
  have dot : state.next.lexeme.isDot = false := test_of_endsArgument h rfl rfl rfl fun _ _ => rfl
  have colons : state.next.lexeme.isDoubleColon = false := test_of_endsArgument h rfl rfl rfl fun _ _ => rfl
  have square : state.next.lexeme.isOpening .square = false := test_of_endsArgument h rfl rfl rfl fun _ _ => rfl
  change (trailers (rule n) base).run state = _
  simp [trailers, dot, colons, square]

theorem adjacent_stops (h : endsArgument state.next.lexeme) :
    (rule (n + 1) .adjacent).run state = .ok ([], state) := by
  change (adjacent (rule n)).run state = _
  rw [adjacent, run_bind_of_ok (run_peek state)]
  split
  · rename_i string
    rw [string] at h
    cases h
  · rfl

theorem blockOption_stops (h : endsStatement state.next.lexeme) (parse : Rules) :
    (blockOption parse).run state = .ok (none, state) := by
  have curly : state.next.lexeme.isOpening .curly = false := test_of_endsStatement h rfl rfl fun _ _ => rfl
  have word : state.next.lexeme.isKeyword "do" = false := test_of_endsStatement h rfl rfl (by decide)
  simp [blockOption, curly, word]

theorem callRest_stops {name : String} {pos : Position} (h : endsStatement state.next.lexeme) (parse : Rules) :
    (callRest parse name none pos).run state = .ok (.call pos name none [] none false, state) := by
  have paren : state.next.lexeme.isOpening .round = false := test_of_endsStatement h rfl rfl fun _ _ => rfl
  have begins : beginsArgument state.next.lexeme = false := test_of_endsStatement h rfl rfl (by decide)
  have binds : bindsArgument state.next.lexeme = false := test_of_endsStatement h rfl rfl (by decide)
  simp [callRest, paren, begins, binds, blockOption_stops h]

/-- A call of nothing but a name. -/
def bare (name : String) : Node :=
  .call .origin name none [] none false

/-- A string without code in it. -/
def plain (text : String) : Node :=
  .string .origin [.text text]

theorem normalPieces_text (text : String) : normalPieces [.text text] = [.text text] := by
  cases h : text.isEmpty <;> simp [normalPieces, joinTexts, h]

variable {tokens : List Token} {spaced : Bool}

theorem operand_bare {name : String} (hidden : Scope.isLocal name state.scopes = false)
    (ends : endsStatement (state.on tokens).next.lexeme) :
    (rule (n + 2) .operand).run (state.on (⟨.identifier name, .origin, spaced⟩ :: tokens)) =
      .ok (bare name, state.on tokens) := by
  change (operand (rule (n + 1))).run _ = _
  simp [operand, primary, identifier, hidden, callRest_stops ends,
    trailers_stops (endsArgument_of_endsStatement ends), bare]

/-- An operand that ends where a statement ends is read as a statement's expression. -/
theorem connective_of_operand {node : Node} (read : (rule n .operand).run state = .ok (node, after))
    (sign : state.next.lexeme.operator? = none) (negation : state.next.lexeme.isKeyword "not" = false)
    (ends : endsStatement after.next.lexeme) : (rule (n + 6) .connective).run state = .ok (node, after) := by
  refine connective_of_expression (expression_of_operand read sign ?_ ?_) negation ?_ ?_
  · exact test_of_endsStatement ends rfl rfl fun _ _ => rfl
  · exact test_of_endsStatement ends rfl rfl fun _ _ => rfl
  · exact test_of_endsStatement ends rfl rfl (by decide)
  · exact test_of_endsStatement ends rfl rfl (by decide)

theorem connective_bare {name : String} (hidden : Scope.isLocal name state.scopes = false)
    (ends : endsStatement (state.on tokens).next.lexeme) :
    (rule (n + 8) .connective).run (state.on (⟨.identifier name, .origin, spaced⟩ :: tokens)) =
      .ok (bare name, state.on tokens) :=
  connective_of_operand (operand_bare hidden ends) rfl rfl ends

theorem expression_plain {text : String} (ends : endsArgument (state.on tokens).next.lexeme) :
    (rule (n + 6) .expression).run (state.on (⟨.string [.text text], .origin, spaced⟩ :: tokens)) =
      .ok (plain text, state.on tokens) := by
  have read : (rule (n + 2) .operand).run (state.on (⟨.string [.text text], .origin, spaced⟩ :: tokens)) =
      .ok (plain text, state.on tokens) := by
    change (operand (rule (n + 1))).run _ = _
    simp [operand, primary, stringLiteral, pieces, adjacent_stops ends, trailers_stops ends, normalPieces_text, plain]
  refine expression_of_operand read rfl ?_ ?_
  · exact test_of_endsArgument ends rfl rfl rfl fun _ _ => rfl
  · exact test_of_endsArgument ends rfl rfl rfl fun _ _ => rfl

end Formulary.Grammar
