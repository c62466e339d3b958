import Formulary.Grammar.Operator
import Formulary.Proofs.Grammar.Natural

/-! Statements and operator expressions are read alike wherever they stand. -/

namespace Formulary.Grammar

variable {f : Position → Position} {parse : Rules} (rules : NaturalRules f parse)
include rules

theorem natural_statements (stop : Stop) :
    Natural f (placeNodes f) (statements parse stop) (statements parse stop) := by
  refine natural_skipSeparators.bind fun _ => (natural_atStop stop).bind fun stopped => .ite (.pure rfl) ?_
  refine (rules.node .statement rfl).bind fun first => (natural_atStop stop).bind fun ended => ?_
  have rest : Natural f (placeNodes f) (do return first :: (← parse (.statements stop)))
      (do return first.place f :: (← parse (.statements stop))) :=
    (rules.nodes (.statements stop) rfl).bind fun more => .pure rfl
  exact (natural_check blind_isSeparator).bind fun _ => .ite natural_complain_bind rest

theorem natural_statement : Natural f (Node.place f) (statement parse) (statement parse) :=
  (rules.node .connective rfl).bind fun node => rules.node (.modifiers node) rfl

theorem natural_modifiers (node : Node) :
    Natural f (Node.place f) (modifiers parse node) (modifiers parse (node.place f)) := by
  refine natural_peek.bind fun token => ?_
  rw [Token.lexeme_place, blind_keyword?, Node.pos_place]
  generalize token.lexeme.keyword? = word
  have branch (polarity : Polarity) : Natural f (Node.place f)
      (do discard advance; let cond ← parse .connective
          parse (.modifiers (.branchModifier node.pos polarity cond node)))
      (do discard advance; let cond ← parse .connective
          parse (.modifiers (.branchModifier (f node.pos) polarity cond (node.place f)))) :=
    natural_advance.discard.bind fun _ => (rules.node .connective rfl).bind fun cond =>
      rules.node (.modifiers (.branchModifier node.pos polarity cond node)) rfl
  have loop (polarity : Polarity) : Natural f (Node.place f)
      (do discard advance; let cond ← parse .connective
          parse (.modifiers (.loop node.pos polarity cond [node] true)))
      (do discard advance; let cond ← parse .connective
          parse (.modifiers (.loop (f node.pos) polarity cond [node.place f] true))) :=
    natural_advance.discard.bind fun _ => (rules.node .connective rfl).bind fun cond =>
      rules.node (.modifiers (.loop node.pos polarity cond [node] true)) rfl
  split
  · exact branch .positive
  · exact branch .negative
  · exact loop .positive
  · exact loop .negative
  · exact natural_advance.discard.bind fun _ => (rules.node .connective rfl).bind fun rescue =>
      rules.node (.modifiers (.rescueModifier node.pos node rescue)) rfl
  · exact .pure rfl

theorem natural_connective : Natural f (Node.place f) (connective parse) (connective parse) :=
  (rules.node .negation rfl).bind fun left => rules.node (.connectiveRest left) rfl

theorem natural_connectiveRest (left : Node) :
    Natural f (Node.place f) (connectiveRest parse left) (connectiveRest parse (left.place f)) := by
  refine natural_peek.bind fun token => ?_
  rw [Token.lexeme_place, blind_keyword?, Node.pos_place]
  cases token.lexeme.keyword? with
  | none => exact .pure rfl
  | some word =>
    refine .ite ?_ (.pure rfl)
    exact natural_advance.discard.bind fun _ => natural_skipNewlines.bind fun _ =>
      (rules.node .negation rfl).bind fun right => rules.node (.connectiveRest (.binary left.pos word left right)) rfl

theorem natural_negation : Natural f (Node.place f) (negation parse) (negation parse) := by
  refine natural_peek.bind fun token => ?_
  rw [Token.lexeme_place, blind_isKeyword "not", Token.pos_place]
  refine .ite ?_ (rules.node .expression rfl)
  exact natural_advance.discard.bind fun _ => (rules.node .negation rfl).bind fun operand => .pure rfl

omit rules in
theorem natural_assignable (node : Node) (token : Token) :
    Natural f (Node.place f) (assignable node token) (assignable (node.place f) (token.place f)) := by
  cases node with
  | reference pos name =>
    refine .ite natural_complainAt ?_
    exact .ite ((natural_declare name).bind fun _ => .pure rfl) (.pure rfl)
  | call pos name receiver args block parens =>
    cases receiver <;> cases args <;> cases block <;> cases parens
    case none.nil.none.false => exact (natural_declare name).bind fun _ => .pure rfl
    case some.nil.none.false | some.nil.none.true => exact .pure rfl
    all_goals exact natural_complainAt
  | index | constPath => exact .pure rfl
  | _ => exact natural_complainAt

theorem natural_expression : Natural f (Node.place f) (expression parse) (expression parse) := by
  refine (rules.node .choice rfl).bind fun target => natural_peek.bind fun token => ?_
  rw [Token.lexeme_place, blind_operator?]
  cases token.lexeme.operator? with
  | none => exact .pure rfl
  | some op =>
    refine .ite ?_ (.ite ?_ (.pure rfl))
    · refine (natural_assignable target token).bind fun target => natural_advance.discard.bind fun _ => ?_
      refine natural_skipNewlines.bind fun _ => (rules.node .expression rfl).bind fun value => .pure ?_
      rw [Node.pos_place]
      rfl
    · refine (natural_assignable target token).bind fun target => natural_advance.discard.bind fun _ => ?_
      refine natural_skipNewlines.bind fun _ => (rules.node .expression rfl).bind fun value => .pure ?_
      rw [Node.pos_place]
      rfl

omit rules in
theorem blind_endsRange : Blind f endsRange :=
  blind_of_strings (fun _ => rfl) fun _ => rfl

theorem natural_range : Natural f (Node.place f) (range parse) (range parse) := by
  refine (rules.node (.binary 0) rfl).bind fun low => natural_peek.bind fun token => ?_
  rw [Token.lexeme_place, blind_isOperator "..", blind_isOperator "...", Node.pos_place]
  refine .ite ?_ (.pure rfl)
  refine natural_advance.discard.bind fun _ => (natural_check blind_endsRange).bind fun _ => ?_
  have high : Natural f (Option.map (Node.place f)) (some <$> parse (.binary 0)) (some <$> parse (.binary 0)) :=
    (rules.node (.binary 0) rfl).map fun _ => rfl
  refine .ite (.pure rfl) (high.bind fun high => .pure ?_)
  cases high <;> rfl

theorem natural_choice : Natural f (Node.place f) (choice parse) (choice parse) := by
  refine (natural_range rules).bind fun cond => ?_
  rw [Node.pos_place]
  refine (natural_check (blind_of_strings (fun _ => rfl) fun _ => rfl)).bind fun _ => .ite ?_ (.pure rfl)
  refine natural_advance.discard.bind fun _ => natural_skipNewlines.bind fun _ => ?_
  refine (rules.node .choice rfl).bind fun whenTrue => natural_skipNewlines.bind fun _ => ?_
  refine (natural_consume (blind_of_strings (fun _ => rfl) fun _ => rfl) _).bind fun _ => ?_
  exact natural_skipNewlines.bind fun _ => (rules.node .choice rfl).bind fun whenFalse => .pure rfl

theorem natural_binary (least : Nat) : Natural f (Node.place f) (binary parse least) (binary parse least) :=
  (rules.node .unary rfl).bind fun left => rules.node (.binaryRest least left) rfl

theorem natural_binaryRest (least : Nat) (left : Node) :
    Natural f (Node.place f) (binaryRest parse least left) (binaryRest parse least (left.place f)) := by
  refine natural_peek.bind fun token => ?_
  rw [Token.lexeme_place, blind_operator?, Node.pos_place]
  cases token.lexeme.operator? with
  | none => exact .pure rfl
  | some op =>
    dsimp only
    cases precedence? op with
    | none => exact .pure rfl
    | some precedence =>
      refine .ite (.pure rfl) ?_
      exact natural_advance.discard.bind fun _ => natural_skipNewlines.bind fun _ =>
        (rules.node (.binary _) rfl).bind fun right => rules.node (.binaryRest least (.binary left.pos op left right)) rfl

omit rules in
theorem blind_isNumber : Blind f isNumber :=
  blind_of_strings (fun _ => rfl) fun _ => rfl

omit rules in
theorem place_signed (pos : Position) (sign : String) (operand : Node) :
    (signed pos sign operand).place f = signed (f pos) sign (operand.place f) := by
  cases operand with
  | int _ value =>
    by_cases minus : sign = "-"
    · subst minus
      rfl
    · by_cases plus : sign = "+"
      · subst plus
        rfl
      · simp [signed, minus, plus, Node.rewrite]
  | float _ value =>
    by_cases minus : sign = "-"
    · subst minus
      rfl
    · by_cases plus : sign = "+"
      · subst plus
        rfl
      · simp [signed, minus, plus, Node.rewrite]
  | _ => simp [signed, Node.rewrite]

theorem natural_unary : Natural f (Node.place f) (unary parse) (unary parse) := by
  refine natural_peek.bind fun token => ?_
  rw [Token.lexeme_place, blind_operator?, Token.pos_place]
  cases token.lexeme.operator? with
  | none => exact rules.node .operand rfl
  | some op =>
    have applied : Natural f (Node.place f) (do return .unary token.pos op (← parse .unary))
        (do return .unary (f token.pos) op (← parse .unary)) :=
      (rules.node .unary rfl).bind fun operand => .pure rfl
    refine .ite (natural_advance.discard.bind fun _ => applied) (.ite ?_ (rules.node .operand rfl))
    refine natural_advance.discard.bind fun _ => natural_peek.bind fun following => ?_
    rw [Token.lexeme_place, blind_isNumber, Token.spaced_place]
    exact .ite ((rules.node .operand rfl).bind fun operand => .pure (place_signed _ _ _)) applied

end Formulary.Grammar
