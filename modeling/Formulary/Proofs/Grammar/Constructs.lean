import Formulary.Grammar.Control
import Formulary.Proofs.Grammar.Calls

/-! What a keyword begins is read alike wherever it stands. -/

namespace Formulary.Grammar

variable {f : Position → Position} {parse : Rules} (rules : NaturalRules f parse)
include rules

theorem natural_elseClause : Natural f (Option.map (Node.place f)) (elseClause parse) (elseClause parse) := by
  refine natural_peek.bind fun token => ?_
  rw [Token.lexeme_place, Token.pos_place, blind_isKeyword "else"]
  refine .ite (natural_advance.discard.bind fun _ => (rules.nodes (.statements _) rfl).bind fun body => .pure ?_)
    (.pure rfl)
  simp [Node.rewrite, Node.rewriteAll_eq]

theorem natural_branch : Natural f (Node.place f) (branch parse) (branch parse) := by
  refine natural_advance.bind fun token => ?_
  rw [Token.lexeme_place, Token.pos_place, blind_keyword?]
  refine (rules.node .connective rfl).bind fun cond => (natural_skipWord "then").bind fun _ => ?_
  refine (rules.nodes (.statements _) rfl).bind fun statements => (natural_checkWord "elsif").bind fun _ => .ite ?_ ?_
  · refine (rules.node .branch rfl).bind fun further => .pure ?_
    simp [Node.rewrite, Node.rewriteAll_eq, Node.rewriteOption_eq]
  · refine (natural_elseClause rules).bind fun orelse => (natural_consumeWord "end").bind fun _ => .pure ?_
    simp [Node.rewrite, Node.rewriteAll_eq, Node.rewriteOption_eq]

theorem natural_loopBody : Natural f (placeNodes f) (loopBody parse) (loopBody parse) :=
  (natural_skipWord "do").bind fun _ => (rules.nodes (.statements _) rfl).bind fun _ =>
    (natural_consumeWord "end").bind fun _ => .pure rfl

theorem natural_loop (polarity : Polarity) :
    Natural f (Node.place f) (loop parse polarity) (loop parse polarity) := by
  refine natural_advance.bind fun token => (rules.node .connective rfl).leavingDo.bind fun cond => ?_
  refine (natural_loopBody rules).bind fun body => .pure ?_
  simp [Node.rewrite, Node.rewriteAll_eq]

theorem natural_targets : Natural f id (targets parse) (targets parse) := by
  refine (natural_consumeIdentifier _).bind fun name => (natural_check blind_isComma).bind fun _ => .ite ?_ (.pure rfl)
  exact natural_advance.discard.bind fun _ => (rules.names .targets rfl).bind fun _ => .pure rfl

theorem natural_forLoop : Natural f (Node.place f) (forLoop parse) (forLoop parse) := by
  refine natural_advance.bind fun token => (rules.names .targets rfl).bind fun names => ?_
  refine (Natural.forM natural_declare names).bind fun _ => (natural_consumeWord "in").bind fun _ => ?_
  refine (rules.node .connective rfl).leavingDo.bind fun iterable => (natural_loopBody rules).bind fun body => .pure ?_
  simp [Node.rewrite, Node.rewriteAll_eq]

theorem natural_whens : Natural f (placeNodes f) (whens parse) (whens parse) := by
  refine natural_peek.bind fun token => ?_
  rw [Token.lexeme_place, Token.pos_place, blind_isKeyword "when"]
  refine .ite (natural_advance.discard.bind fun _ => (natural_argumentList rules none).bind fun values => ?_) (.pure rfl)
  refine (natural_skipWord "then").bind fun _ => (rules.nodes (.statements _) rfl).bind fun statements => ?_
  refine (rules.nodes .whens rfl).bind fun more => .pure ?_
  simp [Node.rewrite, Node.rewriteAll_eq]

theorem natural_caseOf : Natural f (Node.place f) (caseOf parse) (caseOf parse) := by
  refine natural_advance.bind fun token => (natural_check blind_isSeparator).bind fun _ => ?_
  rw [Token.pos_place]
  have finish (subject : Option Node) : Natural f (Node.place f)
      (do skipSeparators
          let clauses ← parse .whens
          if clauses.isEmpty then complain .expectedWhen
          let orelse ← elseClause parse
          consumeWord "end"
          return .caseOf token.pos subject clauses orelse)
      (do skipSeparators
          let clauses ← parse .whens
          if clauses.isEmpty then complain .expectedWhen
          let orelse ← elseClause parse
          consumeWord "end"
          return .caseOf (f token.pos) (subject.map (Node.place f)) clauses orelse) := by
    refine natural_skipSeparators.bind fun _ => (rules.nodes .whens rfl).bind fun clauses => ?_
    dsimp only
    rw [List.isEmpty_map]
    refine .ite natural_complain_bind ((natural_elseClause rules).bind fun orelse => ?_)
    refine (natural_consumeWord "end").bind fun _ => .pure ?_
    simp [Node.rewrite, Node.rewriteAll_eq, Node.rewriteOption_eq]
  have subject : Natural f (Option.map (Node.place f)) (some <$> parse .connective) (some <$> parse .connective) :=
    (rules.node .connective rfl).map fun _ => rfl
  exact .ite (finish none) (subject.bind fun subject => finish subject)

theorem natural_beginBlock : Natural f (Node.place f) (beginBlock parse) (beginBlock parse) := by
  refine natural_advance.bind fun token => ?_
  rw [Token.pos_place]
  refine (natural_body rules token.pos).bind fun statements => (natural_consumeWord "end").bind fun _ => ?_
  have plain (statements : List Node) : Natural f (Node.place f) (pure (.guarded token.pos statements [] [] []))
      (pure (.guarded (f token.pos) (placeNodes f statements) [] [] [])) := by
    refine .pure ?_
    simp [Node.rewrite, Node.rewriteAll_eq]
  cases statements with
  | nil => exact plain []
  | cons node rest =>
    cases rest with
    | nil =>
      cases node with
      | guarded => exact .pure rfl
      | _ => exact plain [_]
    | cons second rest => cases node <;> exact plain (_ :: second :: rest)

theorem natural_jump (word : String) : Natural f (Node.place f) (jump parse word) (jump parse word) := by
  refine natural_advance.bind fun token => natural_atArgument.bind fun _ => ?_
  have value : Natural f (Option.map (Node.place f)) (some <$> parse .expression) (some <$> parse .expression) :=
    (rules.node .expression rfl).map fun _ => rfl
  refine .ite (value.bind fun value => .pure ?_) (.pure ?_)
  · simp [Node.rewrite, Node.rewriteOption_eq]
  · simp [Node.rewrite, Node.rewriteOption_eq]

theorem natural_keywordCall (word : String) :
    Natural f (Node.place f) (keywordCall parse word) (keywordCall parse word) := by
  refine natural_advance.bind fun token => natural_atCallParen.bind fun _ => natural_atArgument.bind fun _ => ?_
  have finish (args : List Node) : Natural f (Node.place f) (pure (.keywordCall token.pos word args))
      (pure (.keywordCall (token.place f).pos word (placeNodes f args))) := by
    refine .pure ?_
    simp [Node.rewrite, Node.rewriteAll_eq]
  refine .ite ?_ (.ite ?_ (finish []))
  · exact natural_advance.discard.bind fun _ => (natural_delimitedArguments rules .round).bind finish
  · exact (natural_commandArguments rules).bind finish

/-! Definitions -/

omit rules in
theorem blind_endsParams (parenthesized : Bool) : Blind f (endsParams parenthesized) := by
  cases parenthesized with
  | false => exact blind_isSeparator
  | true => exact blind_isClosing .round

omit rules in
theorem blind_endsParameter : Blind f endsParameter :=
  blind_of_strings (fun _ => rfl) fun _ => rfl

theorem natural_params (parenthesized : Bool) :
    Natural f id (params parse parenthesized) (params parse parenthesized) := by
  refine (natural_check (blind_endsParams parenthesized)).bind fun _ => .ite ?_ ?_
  · exact .ite (natural_advance.discard.bind fun _ => .pure rfl) (.pure rfl)
  refine natural_advance.bind fun token => ?_
  rw [Token.lexeme_place]
  have more (name : String) : Natural f id (do return name :: (← parse (.params parenthesized)))
      (do return name :: (← parse (.params parenthesized))) :=
    (rules.names (.params parenthesized) rfl).bind fun _ => .pure rfl
  cases token.lexeme with
  | identifier name =>
    refine (natural_declare name).bind fun _ => (natural_check (blind_isOperator "=")).bind fun _ => .ite ?_ (more name)
    exact natural_advance.discard.bind fun _ => (rules.node .choice rfl).discard.bind fun _ => more name
  | label name =>
    refine (natural_declare name).bind fun _ => (natural_check blind_endsParameter).bind fun _ => .ite ?_ (more name)
    exact (rules.node .choice rfl).discard.bind fun _ => more name
  | operator op =>
    refine .ite (natural_peek.bind fun next => ?_) natural_complainAt
    rw [Token.lexeme_place]
    cases next.lexeme with
    | identifier name =>
      exact natural_advance.discard.bind fun _ => (natural_declare name).bind fun _ => more name
    | _ => exact rules.names (.params parenthesized) rfl
  | comma => exact rules.names (.params parenthesized) rfl
  | _ => exact natural_complainAt

theorem natural_methodParams : Natural f id (methodParams parse) (methodParams parse) :=
  (natural_check (blind_isOpening .round)).bind fun parenthesized =>
    .ite (natural_advance.discard.bind fun _ => rules.names (.params parenthesized) rfl)
      (rules.names (.params parenthesized) rfl)

omit rules in
theorem natural_definedName (singleton : Bool) (token : Token) : Natural f id
    (match definedName? token.lexeme with
      | none => complainAt .expectedMethodName token
      | some name => do
        let next ← peek
        if next.lexeme.isOperator "=" && !next.spaced then
          discard advance
          return (name ++ "=", singleton)
        else return (name, singleton))
    (match definedName? (token.place f).lexeme with
      | none => complainAt .expectedMethodName (token.place f)
      | some name => do
        let next ← peek
        if next.lexeme.isOperator "=" && !next.spaced then
          discard advance
          return (name ++ "=", singleton)
        else return (name, singleton)) := by
  have blind_definedName? : Blind f definedName? := blind_of_strings (fun _ => rfl) fun _ => rfl
  rw [Token.lexeme_place, blind_definedName?]
  cases definedName? token.lexeme with
  | none => exact natural_complainAt
  | some name =>
    refine natural_peek.bind fun next => ?_
    rw [Token.lexeme_place, Token.spaced_place, blind_isOperator "="]
    exact .ite (natural_advance.discard.bind fun _ => .pure rfl) (.pure rfl)

omit rules in
theorem natural_methodHead : Natural f id methodHead methodHead := by
  refine natural_advance.bind fun first => ?_
  have blind_spellsSelf : Blind f spellsSelf := blind_of_strings (fun _ => rfl) fun _ => rfl
  refine (natural_check (blind_of_strings (fun _ => rfl) fun _ => rfl)).bind fun dotted => ?_
  dsimp only
  rw [first.lexeme_place, blind_spellsSelf]
  exact .ite (natural_advance.discard.bind fun _ => natural_advance.bind fun token => natural_definedName _ token)
    (natural_definedName _ first)

theorem natural_methodDef : Natural f (Node.place f) (methodDef parse) (methodDef parse) := by
  refine natural_advance.bind fun token => natural_methodHead.bind fun head => ?_
  rw [Token.pos_place]
  refine .inScope true (.enclosed ((natural_methodParams rules).bind fun names => ?_))
  refine (natural_body rules token.pos).bind fun statements => (natural_consumeWord "end").bind fun _ => .pure ?_
  simp [Node.rewrite, Node.rewriteAll_eq]

theorem natural_constantNames : Natural f id (constantNames parse) (constantNames parse) := by
  refine (natural_consumeConstant _).bind fun name => ?_
  refine (natural_check (blind_of_strings (fun _ => rfl) fun _ => rfl)).bind fun _ => .ite ?_ (.pure rfl)
  exact natural_advance.discard.bind fun _ => (rules.names .constantNames rfl).bind fun _ => .pure rfl

theorem natural_constantName : Natural f id (constantName parse) (constantName parse) :=
  (rules.names .constantNames rfl).bind fun _ => .pure rfl

theorem natural_definitionBody : Natural f (placeNodes f) (definitionBody parse) (definitionBody parse) :=
  .inScope true ((rules.nodes (.statements _) rfl).bind fun _ => (natural_consumeWord "end").bind fun _ => .pure rfl)

theorem natural_classDef : Natural f (Node.place f) (classDef parse) (classDef parse) := by
  refine natural_advance.bind fun token => (natural_check (blind_isOperator "<<")).bind fun _ => ?_
  rw [Token.pos_place]
  refine .ite natural_complain_bind ((natural_constantName rules).bind fun name => ?_)
  refine (natural_check (blind_isOperator "<")).bind fun _ => ?_
  have finish (superclass : Option Node) : Natural f (Node.place f)
      (do return .classDef token.pos name superclass (← definitionBody parse))
      (do return .classDef (f token.pos) name (superclass.map (Node.place f)) (← definitionBody parse)) := by
    refine (natural_definitionBody rules).bind fun body => .pure ?_
    simp [Node.rewrite, Node.rewriteAll_eq, Node.rewriteOption_eq]
  have superclass : Natural f (Option.map (Node.place f)) (some <$> parse .expression) (some <$> parse .expression) :=
    (rules.node .expression rfl).map fun _ => rfl
  exact .ite (natural_advance.discard.bind fun _ => superclass.bind fun superclass => finish superclass) (finish none)

theorem natural_moduleDef : Natural f (Node.place f) (moduleDef parse) (moduleDef parse) := by
  refine natural_advance.bind fun token => (natural_constantName rules).bind fun name => ?_
  refine (natural_definitionBody rules).bind fun body => .pure ?_
  simp [Node.rewrite, Node.rewriteAll_eq]

end Formulary.Grammar
