import Formulary.Proofs.Grammar.Border.Calls

/-! Strings and hashes, tests, loops and jumps, and definitions carry over a border. -/

namespace Formulary.Grammar

section Literals

variable {border : Border} {tied : Bool} {parse : Rules}

/-! Strings -/

/-- Code in a string has tokens of its own. -/
instance Still.embedded (tokens : List Token) (pos : Position) : Still (embedded parse tokens pos) where
  stays {state after twin value} run same := by
    rw [Grammar.embedded, run_bind_of_ok (run_get state)] at run
    rw [Grammar.embedded, run_bind_of_ok (run_get twin)]
    obtain ⟨_, start, set, run⟩ := run_bind_eq_ok_iff.1 run
    cases set
    obtain ⟨statements, inner, read, run⟩ := run_bind_eq_ok_iff.1 run
    rw [run_bind_of_ok (run_atStop inner _)] at run
    cases ends : Stop.meets {} inner.next.lexeme with
    | false =>
      rw [ends] at run
      cases run
    | true =>
      rw [ends] at run
      obtain ⟨rfl, rfl⟩ := Prod.mk.inj (Except.ok.inj run)
      refine ⟨inner.scopes, rfl, run_bind_eq_ok_iff.2 ⟨(), _, rfl, ?_⟩⟩
      rw [same, run_bind_of_ok read, run_bind_of_ok (run_atStop inner _), ends]
      rfl

theorem carries_embedded (tokens : List Token) (pos : Position) :
    Carries border tied .whole .outside .outside (embedded parse tokens pos) := by
  have read : Carries border tied .whole .outside .outside (embedded parse tokens pos >>= pure) :=
    .still fun piece => .pure piece
  rwa [bind_pure] at read

variable (rules : CarryingRules border parse)
include rules

theorem carries_pieces (segments : List (Segment Token)) :
    Carries border tied .whole .outside .outside (pieces parse segments) := by
  rw [pieces]
  induction segments with
  | nil => exact .pure []
  | cons segment segments ih =>
    rw [List.mapM_cons]
    cases segment with
    | text value => exact ih.bind_whole fun _ => .pure _
    | code tokens pos =>
      exact (rules.carries (.code tokens pos) tied rfl).bind_whole fun _ => ih.bind_whole fun _ => .pure _

theorem carries_adjacent : Carries border tied .whole .outside .outside (adjacent parse) := by
  refine ⟨fun token => .peek ?_, Rests.of_stays [] fun state here => ?_⟩
  · cases found : token.lexeme with
    | string segments =>
      refine .ite (fun _ => .inert_skip (by rw [found]; rfl) ?_) fun _ => .pure []
      exact (carries_pieces rules segments).bind_whole fun _ =>
        (rules.carries .adjacent tied rfl).bind_whole fun _ => .pure _
    | _ => exact .pure []
  · rw [adjacent, run_bind_of_ok (run_peek state)]
    cases found : state.next.lexeme with
    | string segments =>
      rw [found] at here
      cases here
    | _ => rfl

theorem carries_stringLiteral (pos : Position) (segments : List (Segment Token)) :
    Carries border tied .whole .outside .outside (stringLiteral parse pos segments) :=
  (carries_pieces rules segments).bind_whole fun _ =>
    (rules.carries .adjacent tied rfl).bind_whole fun _ => .pure _

/-! Hashes -/

theorem carries_hashKey : Carries border tied .inner .outside .outside (hashKey parse) := by
  refine .look fun token => ?_
  have arrow : Carries border tied .inner .outside .outside (do
      let key ← parse .expression
      skipNewlines
      consume Lexeme.isArrow .expectedArrow
      skipNewlines
      return key) := by
    refine rules.expression.bind_inner fun key => Carries.skipNewlines.bind_inner fun _ => ?_
    refine (Carries.consume (fun lexeme found => ?_) rfl _).bind_inner fun _ =>
      Carries.skipNewlines.bind_inner fun _ => .done key
    cases lexeme with
    | arrow => exact (steps_of_inert rfl).imp_right (· .whole)
    | _ => cases found
  cases found : token.lexeme with
  | label name =>
    exact .inert_skip (by rw [found]; rfl) (Carries.skipNewlines.bind_inner fun _ => .done _)
  | _ => exact arrow.at_token token

theorem carries_pairs : Carries border tied .inner .outside .outside (pairs parse) := by
  refine .checked fun _ => .ite (fun _ => .done []) fun _ => (carries_hashKey rules).bind_inner fun key => ?_
  refine rules.expression.bind_inner fun value => Carries.skipNewlines.bind_inner fun _ => ?_
  refine .test (fun token found => .inert_skip (inert_of_isComma found) ?_) (.done _)
  exact Carries.skipNewlines.bind_inner fun _ => (rules.carries .pairs tied rfl).bind_inner fun _ => .done _

/-- No bar begins a pair, so that a brace which begins a hash is not taken for one that begins a block's parameters. -/
theorem carries_hash {token : Token} (found : token.lexeme = .opening .curly) :
    CarriesAt border tied token .outside .outside .firm (hash parse) := by
  have steps : Steps .outside token.lexeme ⟨1, .begun⟩ := by
    rw [found]
    exact steps_curly
  have rest : Shuts border true .within .outside (do
      skipNewlines
      let found ← parse .pairs
      consume (·.isClosing .curly) .openHash
      return Node.hash token.pos found true) :=
    .bind Carries.skipNewlines fun _ => .bind ((rules.carries .pairs true rfl).inside 1) fun found =>
      .closing .curly _ _
  refine .advance steps (Carries.enclosed (rest.begun fun {state} bar _ run => ?_) nofun) fun _ => rfl
  have other : state.next.lexeme.isNewline = false := by
    rw [bar]
    rfl
  rw [skipNewlines, run_bind_of_ok (run_skipWhile_of_not other)] at run
  exact Refuses.bind (rules.refuses .pairs rfl) (bar ▸ .bar) _ run

end Literals

section Control

variable {border : Border} {tied : Bool} {token : Token} {parse : Rules} (rules : CarryingRules border parse)
include rules

theorem carries_elseClause : Carries border tied .inner .outside .outside (elseClause parse) := by
  refine .look fun token => .ite (fun found => .inert_skip (inert_of_isKeyword found rfl) ?_) fun _ => .pure none
  exact (rules.statements _).bind_inner fun _ => .done _

theorem carries_branch {word : String} (found : token.lexeme = .keyword word) (opens : word ∈ branchWords) :
    CarriesAt border tied token .outside .outside .firm (branch parse) := by
  have all : ∀ word ∈ branchWords, isInert (.keyword word) = true := by decide
  have inert : isInert token.lexeme = true := by
    rw [found]
    exact all word opens
  refine .inert_advance inert (rules.connective.bind_firm fun cond => (carries_skipWord rfl).bind_firm fun _ => ?_)
  refine (rules.statements _).bind_firm fun statements => ?_
  have last : Carries border tied .firm .outside .outside (do
      let orelse ← elseClause parse
      consumeWord "end"
      return Node.branch token.pos (branchHead token.lexeme.keyword?) cond statements orelse) :=
    (carries_elseClause rules).bind_firm fun orelse => (Shuts.ending _).toCarries
  refine .test_firm rfl rfl (fun following further => .ite (fun _ => ?_) fun _ => last.at_token following) ?_
  · have more := rules.branch (eq_of_isKeyword further) (by decide) tied
    exact CarriesAt.to_firm (more.bind (fun _ => .pure _) fun _ => rfl)
  · exact .ite (fun found => nomatch (Bool.and_eq_true_iff.1 found).2) fun _ => last

/-- No bar begins the statements of a loop, so that its `do` is not taken for one that begins a block. -/
theorem carries_loopBody : Carries border tied .firm .outside .outside (loopBody parse) := by
  have rest : Shuts border tied .outside .outside (do
      let statements ← parse (.statements untilEnd)
      consumeWord "end"
      return statements) := .bind (rules.statements _) fun statements => .ending statements
  rw [loopBody, skipWord, bind_assoc]
  refine .test_firm rfl rfl (fun token found => ?_) rest.toCarries
  have steps : Steps .outside token.lexeme ⟨0, .begun⟩ := by
    rw [eq_of_isKeyword found]
    exact steps_do
  refine .skip steps (rest.begun fun bar _ run => ?_) fun _ => rfl
  obtain ⟨_, _, first, _⟩ := run_bind_eq_ok_iff.1 run
  exact rules.bars _ bar _ first

theorem carries_loop {word : String} (found : token.lexeme = .keyword word) (plain : isInert (.keyword word) = true)
    (polarity : Polarity) : CarriesAt border tied token .outside .outside .firm (loop parse polarity) := by
  refine .inert_advance (found ▸ plain) ?_
  refine (rules.connective.leavingDo nofun).bind_firm fun cond => (carries_loopBody rules).firm_bind fun _ => .pure _

theorem carries_targets : Carries border tied .inner .outside .outside (targets parse) := by
  refine (carries_consumeIdentifier _).bind_inner fun name => ?_
  refine .test (fun token found => .inert_skip (inert_of_isComma found) ?_) (.done _)
  exact (rules.carries .targets tied rfl).bind_inner fun _ => .done _

theorem carries_forLoop (found : token.lexeme = .keyword "for") :
    CarriesAt border tied token .outside .outside .firm (forLoop parse) := by
  refine .inert_advance (by rw [found]; rfl) ?_
  refine (rules.carries .targets tied rfl).bind_firm fun names => .still fun _ => ?_
  refine (carries_consumeWord rfl).bind_firm fun _ => (rules.connective.leavingDo nofun).bind_firm fun iterable => ?_
  exact (carries_loopBody rules).firm_bind fun _ => .pure _

theorem carries_whens : Carries border tied .inner .outside .outside (whens parse) := by
  refine .look fun token => .ite (fun found => .inert_skip (inert_of_isKeyword found rfl) ?_) fun _ => .pure []
  refine (carries_bareList rules).bind_inner fun values => (carries_skipWord rfl).bind_inner fun _ => ?_
  exact (rules.statements _).bind_inner fun _ => (rules.carries .whens tied rfl).bind_inner fun _ => .done _

theorem carries_caseOf (found : token.lexeme = .keyword "case") :
    CarriesAt border tied token .outside .outside .firm (caseOf parse) := by
  refine .inert_advance (by rw [found]; rfl) ?_
  have clauses (subject : Option Node) : Carries border tied .firm .outside .outside (do
      skipSeparators
      let clauses ← parse .whens
      if clauses.isEmpty then complain .expectedWhen
      let orelse ← elseClause parse
      consumeWord "end"
      return Node.caseOf token.pos subject clauses orelse) := by
    refine Carries.skipSeparators.bind_firm fun _ => (rules.carries .whens tied rfl).bind_firm fun clauses => ?_
    refine .ite (fun _ => .complains _) fun _ => ?_
    exact (carries_elseClause rules).bind_firm fun _ => (Shuts.ending _).toCarries
  refine .test_firm rfl rfl (fun following _ => (clauses none).at_token following) ?_
  exact rules.connective.map_inner.bind_firm fun subject => clauses subject

theorem carries_beginBlock (found : token.lexeme = .keyword "begin") :
    CarriesAt border tied token .outside .outside .firm (beginBlock parse) := by
  refine .inert_advance (by rw [found]; rfl) ((carries_body rules _).bind_firm fun statements => ?_)
  refine (carries_consumeWord rfl).firm_bind fun _ => ?_
  split
  · exact .pure _
  · exact .pure _

theorem carries_jump {word : String} (found : token.lexeme = .keyword word) (plain : isInert (.keyword word) = true) :
    CarriesAt border tied token .outside .outside .firm (jump parse word) := by
  refine CarriesAt.to_firm (.inert_advance (found ▸ plain) (.atArgument (fun following => ?_) (.pure _)))
  exact CarriesAt.to_whole ((rules.expression.map_firm.firm_bind fun _ => .pure _).at_token following)

theorem carries_keywordCall {word : String} (found : token.lexeme = .keyword word)
    (plain : isInert (.keyword word) = true) :
    CarriesAt border tied token .outside .outside .firm (keywordCall parse word) := by
  refine CarriesAt.to_firm (.inert_advance (found ▸ plain) ?_)
  refine .atCallParen (fun following paren => .atArgument fun _ => ?_) (.atArgument (fun following => ?_) (.pure _))
  · refine CarriesAt.to_whole (.skip_opening paren nofun ?_)
    exact (carries_delimitedArguments rules .round).firm_bind fun _ => .pure _
  · exact ((carries_commandArguments rules).firm_bind fun _ => .pure _).to_whole.at_token following

end Control

section Definitions

variable {α : Type} {border : Border} {tied : Bool} {token : Token} {finish : Nest} {parse : Rules}

variable (rules : CarryingRules border parse)

/-! Parameters -/

theorem steps_place {lexeme : Lexeme Token} (parenthesized : Bool) (smooth : isSmooth lexeme = true) :
    Steps (Rule.params parenthesized).nest lexeme (Rule.params parenthesized).nest := by
  cases parenthesized with
  | true => exact (steps_of_smooth smooth).inside 1
  | false => exact steps_of_smooth smooth

include rules

/-- Behind a parameter, others may follow. -/
theorem carries_parameter (parenthesized : Bool) :
    Carries border true .firm (Rule.params parenthesized).nest .outside (do
    let token ← advance
    match token.lexeme with
    | .identifier name =>
      declare name
      if ← check (·.isOperator "=") then
        discard advance
        discard (parse .choice)
      return name :: (← parse (.params parenthesized))
    | .label name =>
      declare name
      if !(← check endsParameter) then discard (parse .choice)
      return name :: (← parse (.params parenthesized))
    | .operator op =>
      if ["*", "**", "&"].contains op then
        match (← peek).lexeme with
        | .identifier name =>
          discard advance
          declare name
          return name :: (← parse (.params parenthesized))
        | _ => parse (.params parenthesized)
      else complainAt .parameter token
    | .comma => parse (.params parenthesized)
    | _ => complainAt .parameter token) := by
  have more := rules.params parenthesized
  have names (name : String) : Carries border true .firm (Rule.params parenthesized).nest .outside
      (do return name :: (← parse (.params parenthesized))) := more.firm_bind fun _ => .pure _
  have value (name : String) : Carries border true .firm (Rule.params parenthesized).nest .outside (do
      discard (parse .choice)
      return name :: (← parse (.params parenthesized))) := by
    cases parenthesized with
    | true => exact (rules.choice.inside 1).map_firm.bind_firm fun _ => names name
    | false => exact rules.choice.map_firm.bind_firm fun _ => names name
  refine ⟨fun token => ?_, .of_fails fun state lexeme rim here result run => ?_⟩
  · obtain ⟨lexeme, pos, spaced⟩ := token
    cases lexeme with
    | identifier name =>
      refine .advance (steps_place parenthesized rfl) (.still fun _ => .test_firm rfl rfl (fun token found => ?_) ?_) nofun
      · have smooth : isSmooth token.lexeme = true := by
          rw [eq_of_isOperator found]
          rfl
        exact .skip (steps_place parenthesized smooth) (value name) fun _ => rfl
      · exact names name
    | label name =>
      refine .advance (steps_place parenthesized rfl) (.still fun _ => .checked_firm fun ends => ?_) nofun
      exact .ite (fun _ => value name) fun _ => names name
    | comma => exact .advance (steps_place parenthesized rfl) more nofun
    | operator op =>
      refine .advance (steps_place parenthesized rfl) ?_ fun _ => rfl
      refine .ite (fun _ => ⟨fun token => .peek ?_, fun state after value here run => ?_⟩) fun _ => .complainAt _ _
      · cases found : token.lexeme with
        | identifier name =>
          refine .skip (steps_place parenthesized (by rw [found]; rfl)) (.still fun _ => names name) fun _ => rfl
        | _ => exact more.at_token token
      · have rim := Border.rim_of_left_nil here
        rw [run_bind_of_ok (run_peek state)] at run
        generalize state.next.lexeme = following at rim run
        cases rim <;> exact more.eager here run
    | _ =>
      refine .of_fails fun state here result run => ?_
      rw [run_bind_of_ok (run_advance state), here] at run
      cases run
  · rw [run_bind_of_ok (run_advance state), here] at run
    cases rim <;> cases run

theorem carries_params (parenthesized : Bool) :
    Carries border true .firm (Rule.params parenthesized).nest .outside (params parse parenthesized) := by
  cases parenthesized with
  | true =>
    refine .accept (fun lexeme found => ?_) rfl (.pure []) (carries_parameter rules true)
    rw [eq_of_isClosing found]
    exact ⟨steps_closing .round, rfl⟩
  | false => exact .test_firm rfl rfl (fun token _ => .pure []) (carries_parameter rules false)

theorem carries_methodParams : Carries border true .firm .outside .outside (methodParams parse) := by
  refine .test_firm rfl rfl (fun token found => ?_) (rules.params false)
  exact .skip_opening (eq_of_isOpening found) nofun (rules.params true)

/-! Methods -/

omit rules in
theorem steps_defined {lexeme : Lexeme Token} (named : (definedName? lexeme).isSome = true ∨ spellsSelf lexeme = true) :
    Steps ⟨0, .naming⟩ lexeme .outside := by
  cases lexeme with
  | identifier name | constant name | keyword name | operator name | symbol name | label name => exact fun _ => rfl
  | _ => obtain found | found := named <;> cases found

/-- The name of a method that a token spells, with the sign behind it that makes it a setter. -/
def nameAt (singleton : Bool) (token : Token) : Parser (String × Bool) :=
  match definedName? token.lexeme with
  | none => complainAt .expectedMethodName token
  | some name => do
    let next ← peek
    if next.lexeme.isOperator "=" && !next.spaced then
      discard advance
      return (name ++ "=", singleton)
    else return (name, singleton)

omit rules in
theorem methodHead_eq : methodHead = (do
    let first ← advance
    let dot ← check Lexeme.isPlainDot
    if spellsSelf first.lexeme && dot then
      discard advance
      nameAt (spellsSelf first.lexeme && dot) (← advance)
    else nameAt (spellsSelf first.lexeme && dot) first) := rfl

omit rules in
theorem carries_nameAt (singleton : Bool) (token : Token) :
    Carries border tied .whole .outside .outside (nameAt singleton token) := by
  rw [nameAt]
  cases definedName? token.lexeme with
  | none => exact (Carries.complainAt _ _).to_whole
  | some name =>
    refine ⟨fun token => .peek (.ite (fun found => ?_) fun _ => .pure _), ?_⟩
    · have inert : isInert token.lexeme = true := by
        rw [eq_of_isOperator (Bool.and_eq_true_iff.1 found).1]
        rfl
      exact .inert_skip inert (.pure _)
    · refine Rests.of_stays (name, singleton) fun state here => ?_
      have other : state.next.lexeme.isOperator "=" = false := by
        rw [Lexeme.isOperator, operator?_of_closesStatement here]
        rfl
      rw [run_bind_of_ok (run_peek state), other]
      rfl

omit rules in
theorem nameAt_of_none {singleton : Bool} {state : State} (none : definedName? token.lexeme = none) (result) :
    (nameAt singleton token).run state ≠ .ok result := by
  rw [nameAt, none]
  exact nofun

omit rules in
theorem methodHead_of_none {state : State} (none : definedName? state.next.lexeme = none)
    (other : spellsSelf state.next.lexeme = false) (result) : methodHead.run state ≠ .ok result := by
  rw [methodHead_eq, run_bind_of_ok (run_advance state), run_bind_of_ok (run_check _ _), other]
  exact nameAt_of_none none result

omit rules in
theorem carries_lastName {next : String × Bool → Parser α}
    (h : ∀ head, Carries border tied .firm .outside finish (next head)) :
    Carries border tied .firm ⟨0, .naming⟩ finish (advance >>= fun token => nameAt true token >>= next) := by
  refine ⟨fun token => ?_, .of_fails fun state lexeme rim here result run => ?_⟩
  · cases named : definedName? token.lexeme with
    | none =>
      refine .of_fails fun state here result run => ?_
      rw [run_bind_of_ok (run_advance state), here] at run
      obtain ⟨_, _, first, _⟩ := run_bind_eq_ok_iff.1 run
      exact nameAt_of_none named _ first
    | some name =>
      have steps := steps_defined (.inl (Option.isSome_iff_exists.2 ⟨name, named⟩))
      exact .advance steps ((carries_nameAt true token).bind_firm h) fun _ => rfl
  · rw [run_bind_of_ok (run_advance state)] at run
    obtain ⟨_, _, first, _⟩ := run_bind_eq_ok_iff.1 run
    exact nameAt_of_none (here ▸ rim.test rfl rfl) _ first

omit rules in
/-- A sign may be a method's name, behind which more of the definition must follow. -/
theorem carries_methodHead {next : String × Bool → Parser α}
    (h : ∀ head, Carries border tied .firm .outside finish (next head)) :
    Carries border tied .firm ⟨0, .naming⟩ finish (methodHead >>= next) := by
  refine ⟨fun first => ?_, .of_fails fun state lexeme rim here result run => ?_⟩
  · by_cases named : (definedName? first.lexeme).isSome = true ∨ spellsSelf first.lexeme = true
    · have alone : Carries border tied .firm .outside finish (nameAt false first >>= next) :=
        (carries_nameAt false first).bind_firm h
      rw [methodHead_eq]
      simp only [bind_assoc]
      refine .advance (steps_defined named) (.test_firm rfl rfl (fun dot found => ?_) ?_) fun _ => rfl
      · cases spellsSelf first.lexeme with
        | false => exact alone.at_token dot
        | true =>
          have steps : Steps .outside dot.lexeme ⟨0, .naming⟩ := by
            cases same : dot.lexeme with
            | dot => exact fun _ => rfl
            | _ =>
              rw [same] at found
              cases found
          simp only [Bool.and_self, if_true, bind_assoc]
          exact .skip steps (carries_lastName h) fun _ => rfl
      · rw [Bool.and_false]
        exact alone
    · obtain ⟨unnamed, other⟩ := not_or.1 named
      refine .of_fails fun state here result run => ?_
      obtain ⟨_, _, first, _⟩ := run_bind_eq_ok_iff.1 run
      rw [← here] at unnamed other
      exact methodHead_of_none (Option.not_isSome_iff_eq_none.1 unnamed) (Bool.not_eq_true _ ▸ other) _ first
  · obtain ⟨_, _, first, _⟩ := run_bind_eq_ok_iff.1 run
    exact methodHead_of_none (here ▸ rim.test rfl rfl) (here ▸ rim.test rfl rfl) _ first

theorem carries_methodDef (found : token.lexeme = .keyword "def") :
    CarriesAt border tied token .outside .outside .firm (methodDef parse) := by
  have steps : Steps .outside token.lexeme ⟨0, .naming⟩ := by
    rw [found]
    exact steps_def
  refine .advance steps (carries_methodHead fun head => ?_) fun _ => rfl
  refine Carries.inScope true (Carries.enclosed ?_ nofun) nofun
  refine (carries_methodParams rules).bind_firm fun params => (carries_body rules _).bind_firm fun statements => ?_
  exact (Shuts.ending _).toCarries

/-! Classes and modules -/

theorem carries_constantNames : Carries border tied .firm .outside .outside (constantNames parse) := by
  refine (carries_consumeConstant _).firm_bind fun name => ?_
  refine .check (fun here => ?_) (fun token found => ?_) (.pure [name])
  · exact test_of_closesStatement here rfl rfl rfl (fun _ => rfl) fun _ _ => rfl
  · refine CarriesAt.to_whole (.skip_colons found ?_)
    exact (rules.carries .constantNames tied rfl).firm_bind fun _ => .pure _

theorem carries_definitionBody : Carries border tied .firm .outside .outside (definitionBody parse) :=
  .inScope true ((rules.statements _).bind_firm fun statements => (Shuts.ending statements).toCarries) nofun

theorem carries_constantName : Carries border tied .firm .outside .outside (constantName parse) :=
  (rules.carries .constantNames tied rfl).firm_bind fun _ => .pure _

theorem carries_classDef (found : token.lexeme = .keyword "class") :
    CarriesAt border tied token .outside .outside .firm (classDef parse) := by
  refine .inert_advance (by rw [found]; rfl) (.checked_firm fun _ => .ite (fun _ => .complains _) fun _ => ?_)
  refine (carries_constantName rules).bind_firm fun name => ?_
  have rest (superclass : Option Node) : Carries border tied .firm .outside .outside
      (do return Node.classDef token.pos name superclass (← definitionBody parse)) :=
    (carries_definitionBody rules).firm_bind fun _ => .pure _
  refine .test_firm rfl rfl (fun sign found => ?_) (rest none)
  have inert : isInert sign.lexeme = true := by
    rw [eq_of_isOperator found]
    rfl
  exact .inert_skip inert (rules.expression.map_firm.bind_firm fun superclass => rest superclass)

theorem carries_moduleDef (found : token.lexeme = .keyword "module") :
    CarriesAt border tied token .outside .outside .firm (moduleDef parse) := by
  refine .inert_advance (by rw [found]; rfl) ((carries_constantName rules).bind_firm fun name => ?_)
  exact (carries_definitionBody rules).firm_bind fun _ => .pure _

end Definitions

end Formulary.Grammar
