import Formulary.Proofs.Grammar.Border.Constructs

/-! Statements, operators and operands carry over a border, and so does every rule. -/

namespace Formulary.Grammar

section Operators

variable {border : Border} {tied : Bool} {parse : Rules} (rules : CarryingRules border parse)
include rules

/-! Statements -/

omit rules in
theorem word_of_closesStatement {word : String} (h : closesStatement (.keyword word) = true) :
    word = "else" ∨ word = "elsif" ∨ word = "end" ∨ word = "ensure" ∨ word = "when" := by
  simpa using List.contains_iff_mem.1 h

theorem carries_statements (stop : Stop) :
    Carries border tied .inner .outside .outside (statements parse stop) := by
  refine Carries.bind_inner Carries.skipSeparators fun _ => .checked fun stops =>
    .ite (fun _ => .done []) fun _ => (rules.carries .statement tied rfl).bind_inner fun first => ?_
  have more : Carries border tied .inner .outside .outside (do return first :: (← parse (.statements stop))) :=
    (rules.statements stop).bind_inner fun _ => .done _
  exact .checked fun _ => .checked fun _ => .ite (fun _ => (Carries.complains _).to_inner) fun _ => more

theorem carries_statement : Carries border tied .firm .outside .outside (statement parse) :=
  rules.connective.firm_bind fun node => rules.modifiers node

theorem carries_modifiers (node : Node) : Carries border tied .whole .outside .outside (modifiers parse node) := by
  refine ⟨fun token => .peek ?_, Rests.of_stays node fun state here => ?_⟩
  · dsimp only
    split
    case h_6 => exact .pure node
    all_goals
      rename_i word
      refine CarriesAt.to_whole (.inert_skip (inert_of_keyword? word rfl) ?_)
      exact rules.connective.firm_bind fun _ => rules.modifiers _
  · rw [modifiers, run_bind_of_ok (run_peek state)]
    cases found : state.next.lexeme with
    | keyword word => obtain rfl | rfl | rfl | rfl | rfl := word_of_closesStatement (found ▸ here) <;> rfl
    | _ => rfl

theorem carries_connective : Carries border tied .firm .outside .outside (connective parse) :=
  rules.negation.firm_bind fun left => rules.connectiveRest left

theorem carries_connectiveRest (left : Node) :
    Carries border tied .whole .outside .outside (connectiveRest parse left) := by
  refine ⟨fun token => .peek ?_, Rests.of_stays left fun state here => ?_⟩
  · cases found : token.lexeme.keyword? with
    | none => exact .pure left
    | some word =>
      refine .ite (fun joins => CarriesAt.to_whole (.inert_skip (inert_of_keyword? found ?_) ?_)) fun _ => .pure left
      · obtain rfl | rfl := joins
        · rfl
        · rfl
      · exact Carries.skipNewlines.bind_firm fun _ => rules.negation.firm_bind fun _ => rules.connectiveRest _
  · rw [connectiveRest, run_bind_of_ok (run_peek state)]
    cases found : state.next.lexeme with
    | keyword word => obtain rfl | rfl | rfl | rfl | rfl := word_of_closesStatement (found ▸ here) <;> rfl
    | _ => rfl

theorem carries_negation : Carries border tied .firm .outside .outside (negation parse) := by
  refine ⟨fun token => .peek (.ite (fun found => ?_) fun _ => rules.expression.at_token token),
    (refuses_negation rules.refuses).eager⟩
  exact .inert_skip (inert_of_isKeyword found rfl) (rules.negation.firm_bind fun _ => .pure _)

/-! Operators -/

theorem carries_expression : Carries border tied .firm .outside .outside (expression parse) := by
  refine rules.choice.firm_bind fun target => ⟨fun token => .peek ?_, Rests.of_stays target fun state here => ?_⟩
  · cases sign : token.lexeme.operator? with
    | none => exact .pure target
    | some op =>
      have value (build : Node → Node) : Carries border tied .firm .outside .outside
          (do skipNewlines; return build (← parse .expression)) :=
        Carries.skipNewlines.bind_firm fun _ => rules.expression.firm_bind fun _ => .pure _
      refine .ite (fun assigns => ?_) fun _ => .ite (fun assigns => ?_) fun _ => .pure target
      · have inert : isInert token.lexeme = true := by
          rw [eq_of_operator? sign, assigns]
          rfl
        exact CarriesAt.to_whole (.still fun target => .inert_skip inert (value _))
      · have all : ∀ op ∈ assignmentOperators, isInert (.operator op) = true := by decide
        have inert : isInert token.lexeme = true := by
          rw [eq_of_operator? sign]
          exact all op (List.contains_iff_mem.1 assigns)
        exact CarriesAt.to_whole (.still fun target => .inert_skip inert (value _))
  · rw [run_bind_of_ok (run_peek state), operator?_of_closesStatement here]
    rfl

/-- A range may lack its upper bound at the border if it may do so in both runs. -/
theorem carries_range : Carries border tied .firm .outside .outside (range parse) := by
  refine (rules.binary 0).firm_bind fun low => ⟨fun token => .peek (.ite (fun found => ?_) fun _ => .pure low),
    Rests.of_stays low fun state here => ?_⟩
  · have opens : opensRange token.lexeme = true := found
    have smooth : isInert token.lexeme = true := by
      obtain two | three := Bool.or_eq_true_iff.1 found
      · rw [eq_of_isOperator two]
        rfl
      · rw [eq_of_isOperator three]
        rfl
    obtain ⟨steps, sign⟩ := steps_of_inert smooth
    refine .read_skip steps (fun token' => .check (.ite (fun _ => .pure _) fun _ => ?_))
      (fun strands => absurd ((sign _).symm.trans strands) Bool.false_ne_true) fun _ range => ?_
    · exact ((rules.binary 0).map_firm.firm_bind fun _ => .pure _).at_token token' |>.to_whole
    · have ends : border.endsRange = true := range.resolve_right fun closed => by
        rw [opens] at closed
        contradiction
      intro state twin after value _ here there final scopes run left
      have closed : endsRange state.next.lexeme = true := (Border.rim_of_left_nil here).test rfl rfl
      rw [run_bind_of_ok (run_check state endsRange), closed] at run
      cases run
      refine ⟨twin, ?_, there, scopes⟩
      rw [run_bind_of_ok (run_check twin endsRange), Border.next_of_right_nil there final]
      rw [Border.endsRange] at ends
      rw [ends]
      rfl
  · have none := operator?_of_closesStatement here
    rw [run_bind_of_ok (run_peek state)]
    simp only [Lexeme.isOperator, none]
    rfl

theorem carries_choice : Carries border tied .firm .outside .outside (choice parse) := by
  refine (carries_range rules).firm_bind fun cond => .check (fun here => ?_) (fun token found => ?_) (.pure cond)
  · exact test_of_closesStatement here rfl rfl rfl (fun _ => rfl) fun _ _ => rfl
  · have inert : isInert token.lexeme = true :=
      inert_of_test found rfl rfl (fun _ => rfl) (fun _ => rfl) rfl rfl rfl (fun _ => rfl) fun _ => rfl
    refine CarriesAt.to_whole (.inert_skip inert ?_)
    refine Carries.skipNewlines.bind_firm fun _ => rules.choice.bind_firm fun whenTrue => ?_
    refine Carries.skipNewlines.bind_firm fun _ => ?_
    refine (Carries.consume (fun lexeme colon => ?_) rfl _).bind_firm fun _ => Carries.skipNewlines.bind_firm fun _ =>
      rules.choice.firm_bind fun _ => .pure _
    cases lexeme with
    | colon => exact (steps_of_inert rfl).imp_right (· .whole)
    | _ => cases colon

theorem carries_binary (least : Nat) : Carries border tied .firm .outside .outside (binary parse least) :=
  rules.unary.firm_bind fun left => rules.binaryRest least left

theorem carries_binaryRest (least : Nat) (left : Node) :
    Carries border tied .whole .outside .outside (binaryRest parse least left) := by
  refine ⟨fun token => .peek ?_, Rests.of_stays left fun state here => ?_⟩
  · cases sign : token.lexeme.operator? with
    | none => exact .pure left
    | some op =>
      dsimp only
      cases precedence? op with
      | none => exact .pure left
      | some precedence =>
        have steps : Steps .outside token.lexeme .outside := by
          rw [eq_of_operator? sign]
          exact steps_of_smooth rfl
        refine .ite (fun _ => .pure left) fun _ => CarriesAt.to_whole (.skip steps ?_ fun _ => rfl)
        exact Carries.skipNewlines.bind_firm fun _ => (rules.binary _).firm_bind fun _ => rules.binaryRest _ _
  · rw [binaryRest, run_bind_of_ok (run_peek state), operator?_of_closesStatement here]
    rfl

theorem carries_unary : Carries border tied .firm .outside .outside (unary parse) := by
  refine ⟨fun token => .peek ?_, (refuses_unary rules.refuses).eager⟩
  cases sign : token.lexeme.operator? with
  | none => exact rules.operand.at_token token
  | some op =>
    have steps : Steps .outside token.lexeme .outside := by
      rw [eq_of_operator? sign]
      exact steps_of_smooth rfl
    refine .ite (fun _ => .skip steps (rules.unary.firm_bind fun _ => .pure _) fun _ => rfl) fun _ => ?_
    refine .ite (fun _ => ?_) fun _ => rules.operand.at_token token
    refine .skip steps ⟨fun following => .peek ?_, ?_⟩ fun _ => rfl
    · refine .ite (fun _ => ?_) fun _ => ?_
      · exact (rules.operand.firm_bind fun _ => .pure _).at_token following
      · exact (rules.unary.firm_bind fun _ => .pure _).at_token following
    · refine Refuses.eager (.look fun following barren => ?_)
      have other : isNumber following.lexeme = false := by
        cases same : following.lexeme <;> rw [same] at barren <;> cases barren <;> rfl
      rw [other]
      exact Refuses.bind (rules.refuses .unary rfl)

end Operators

variable {border : Border} {tied : Bool} {token : Token} {parse : Rules}

section Operands

variable (rules : CarryingRules border parse)
include rules

theorem carries_keyword {word : String} (found : token.lexeme = .keyword word) :
    CarriesAt border tied token .outside .outside .firm (keyword parse token word) := by
  have inert (plain : isInert (.keyword word) = true) : isInert token.lexeme = true := found ▸ plain
  unfold keyword
  split
  case h_1 | h_2 | h_3 | h_4 | h_5 => exact CarriesAt.to_firm (.inert_skip (inert rfl) (.pure _))
  case h_6 | h_7 => exact rules.branch found (by decide) tied
  case h_8 | h_9 => exact carries_loop rules found rfl _
  case h_10 => exact carries_forLoop rules found
  case h_11 => exact carries_caseOf rules found
  case h_12 => exact carries_beginBlock rules found
  case h_13 => exact carries_methodDef rules found
  case h_14 => exact carries_classDef rules found
  case h_15 => exact carries_moduleDef rules found
  case h_16 | h_17 | h_18 => exact carries_jump rules found rfl
  case h_19 | h_20 => exact carries_keywordCall rules found rfl
  case h_21 => exact .inert_skip (inert rfl) (rules.expression.firm_bind fun _ => .pure _)
  case h_22 => exact .of_fails fun _ _ => nofun

theorem carries_identifier (name : String) (pos : Position) :
    Carries border tied .whole .outside .outside (identifier parse name pos) := by
  have call : Carries border tied .whole .outside .outside (callRest parse name none pos) :=
    carries_callRest rules name none pos
  refine .still fun declared => .atCallParen (fun token _ => ?_) ?_
  · exact .ite (fun _ => .pure _) fun _ => call.at_token token
  · exact .ite (fun _ => .pure _) fun _ => call

theorem carries_constant (name : String) (pos : Position) :
    Carries border tied .whole .outside .outside (constant parse name pos) :=
  .atCallParen (fun token _ => (carries_callRest rules name none pos).at_token token) (.pure _)

theorem carries_parenthesized (pos : Position) :
    Carries border tied .firm .within .outside (parenthesized parse pos) := by
  refine .enclosed (((rules.statements _).inside 1).bind_firm fun statements => ?_) nofun
  exact (Shuts.closing .round _ _).toCarries

theorem carries_primary : Carries border tied .firm .outside .outside (primary parse) := by
  refine ⟨fun token => .peek ?_, refuses_primary.eager⟩
  cases found : token.lexeme with
  | integer digits | float digits =>
    exact CarriesAt.to_firm (.inert_skip (by rw [found]; rfl) (.still fun _ => .pure _))
  | string segments =>
    exact CarriesAt.to_firm (.inert_skip (by rw [found]; rfl) (carries_stringLiteral rules _ _))
  | shell segments =>
    refine CarriesAt.to_firm (.inert_skip (by rw [found]; rfl) ?_)
    exact (carries_pieces rules segments).bind_whole fun _ => .pure _
  | regexp _ _ | symbol _ | words _ | symbols _ | instanceVar _ | globalVar _ =>
    exact CarriesAt.to_firm (.inert_skip (by rw [found]; rfl) (.pure _))
  | constant name => exact CarriesAt.to_firm (.inert_skip (by rw [found]; rfl) (carries_constant rules name _))
  | identifier name => exact CarriesAt.to_firm (.inert_skip (by rw [found]; rfl) (carries_identifier rules name _))
  | keyword word => exact carries_keyword rules found
  | opening bracket =>
    cases bracket with
    | round => exact .skip_opening found nofun (carries_parenthesized rules _)
    | square =>
      exact .skip_opening found nofun ((carries_delimitedArguments rules .square).firm_bind fun _ => .pure _)
    | curly => exact carries_hash rules found
  | doubleColon =>
    exact .skip_colons (by rw [found]; rfl) ((carries_consumeConstant _).firm_bind fun _ => .pure _)
  | operator spelling =>
    split
    all_goals first | contradiction | exact .of_fails fun _ _ => nofun
  | _ => exact .of_fails fun _ _ => nofun

theorem carries_operand : Carries border tied .firm .outside .outside (operand parse) :=
  (carries_primary rules).firm_bind fun node => rules.trailers node

/-! Rules -/

theorem carryingRules_step : CarryingRules border (step parse) where
  carries {α} r tied free := by
    cases r with
    | statements stop => exact carries_statements rules stop
    | statement => exact carries_statement rules
    | modifiers node => exact carries_modifiers rules node
    | connective => exact carries_connective rules
    | connectiveRest left => exact carries_connectiveRest rules left
    | negation => exact carries_negation rules
    | expression => exact carries_expression rules
    | choice => exact carries_choice rules
    | binary least => exact carries_binary rules least
    | binaryRest least left => exact carries_binaryRest rules least left
    | unary => exact carries_unary rules
    | operand => exact carries_operand rules
    | trailers base => exact carries_trailers rules base
    | arguments closer named =>
      cases closer with
      | none => exact carries_bareArguments rules named
      | some bracket => exact carries_arguments rules bracket named
    | adjacent => exact carries_adjacent rules
    | code tokens pos => exact carries_embedded tokens pos
    | pairs => exact carries_pairs rules
    | blockNames => exact carries_blockNames rules
    | params parenthesized =>
      cases tied with
      | true => exact carries_params rules parenthesized
      | false => cases free
    | branch => cases free
    | whens => exact carries_whens rules
    | rescues => exact carries_rescues rules
    | exceptions => exact carries_exceptions rules
    | targets => exact carries_targets rules
    | constantNames => exact carries_constantNames rules
  branch found opens _ := carries_branch rules found opens
  refuses := refusingRules_step rules.refuses
  bars _ bar := refuses_statements rules.refuses bar

end Operands

theorem carryingRules_rule (fuel : Nat) : CarryingRules border (rule fuel) := by
  induction fuel with
  | zero =>
    have fails {α : Type} (r : Rule α) (state : State) (result : α × State) : (rule 0 r).run state ≠ .ok result := nofun
    exact
      { carries := fun r tied free => ⟨fun token => .of_fails fun state _ => fails r state, by
          cases r.extent with
          | inner => trivial
          | whole => exact Eager.rests (.of_fails fun state _ _ _ => fails r state)
          | firm => exact .of_fails fun state _ _ _ => fails r state⟩
        branch := fun _ _ _ => .of_fails fun state _ => fails .branch state
        refuses := refusingRules_rule 0
        bars := fun stop _ => fails (.statements stop) _ }
  | succ fuel ih => exact carryingRules_step ih

end Formulary.Grammar
