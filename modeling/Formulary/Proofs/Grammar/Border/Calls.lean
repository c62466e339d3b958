import Formulary.Proofs.Grammar.Border.Rules

/-! Arguments, blocks and calls carry over a border. -/

namespace Formulary.Grammar

variable {α : Type} {border : Border} {tied : Bool} {reach : Reach} {start finish : Nest}

/-! Words and names -/

theorem carries_skipWord {word : String} (plain : isInert (.keyword word) = true) :
    Carries border tied .inner .outside .outside (skipWord word) := by
  refine .test (fun token found => ?_) (.done ())
  have skip : CarriesAt border tied token .outside .outside .inner (discard advance >>= pure) :=
    .inert_skip (inert_of_isKeyword found plain) (.done ())
  rwa [bind_pure] at skip

theorem carries_consumeWord {word : String} (plain : isInert (.keyword word) = true) :
    Carries border tied .firm .outside .outside (consumeWord word) :=
  .consume (fun _ found => by rw [eq_of_isKeyword found]; exact (steps_of_inert plain).imp_right (· .whole)) rfl _

theorem carries_consumeIdentifier (complaint : Complaint) :
    Carries border tied .firm .outside .outside (consumeIdentifier complaint) where
  at_token token := by
    refine .peek ?_
    cases found : token.lexeme with
    | identifier name => exact CarriesAt.to_firm (.inert_skip (by rw [found]; rfl) (.pure name))
    | _ => exact .of_fails fun _ _ => nofun
  fits := by
    refine .of_fails fun state lexeme rim here => ?_
    rw [consumeIdentifier, run_bind_of_ok (run_peek state), here]
    cases rim <;> exact fun _ => nofun

theorem carries_consumeConstant (complaint : Complaint) :
    Carries border tied .firm .outside .outside (consumeConstant complaint) where
  at_token token := by
    refine .peek ?_
    cases found : token.lexeme with
    | constant name => exact CarriesAt.to_firm (.inert_skip (by rw [found]; rfl) (.pure name))
    | _ => exact .of_fails fun _ _ => nofun
  fits := by
    refine .of_fails fun state lexeme rim here => ?_
    rw [consumeConstant, run_bind_of_ok (run_peek state), here]
    cases rim <;> exact fun _ => nofun

variable {parse : Rules} (rules : CarryingRules border parse)
include rules

/-! Arguments -/

theorem carries_argument (named : Bool) : Carries border tied .firm .outside .outside (argument parse named) := by
  refine ⟨fun token => .peek ?_, (refuses_argument rules.refuses named).eager⟩
  have plain : Carries border tied .firm .outside .outside
      (do let value ← parse .expression
          if ← check Lexeme.isArrow then
            discard advance
            skipNewlines
            return Sum.inr (value, ← parse .expression)
          else if named then complain .positionalAfterPairs
          else return Sum.inl value) := by
    refine rules.expression.firm_bind fun value => .check (fun here => ?_) (fun token found => ?_) ?_
    · exact test_of_closesStatement here rfl rfl rfl (fun _ => rfl) fun _ _ => rfl
    · refine CarriesAt.to_whole (.inert_skip (inert_of_isArrow found) (Carries.skipNewlines.bind_firm fun _ => ?_))
      exact rules.expression.firm_bind fun _ => .pure _
    · exact .ite nofun fun _ => .ite (fun _ => (Carries.complain _).to_whole) fun _ => .pure _
  cases found : token.lexeme with
  | label name =>
    refine .inert_skip (by rw [found]; rfl) (Carries.skipNewlines.bind_firm fun _ => ?_)
    exact rules.expression.firm_bind fun _ => .pure _
  | operator spelling =>
    have steps : Steps .outside token.lexeme .outside := by
      rw [found]
      exact steps_of_smooth rfl
    split
    · contradiction
    · exact .skip steps (rules.expression.firm_bind fun _ => .pure _) fun _ => rfl
    · exact .skip steps (rules.expression.firm_bind fun _ => .pure _) fun _ => rfl
    · exact .skip steps (rules.expression.firm_bind fun _ => .pure _) fun _ => rfl
    · exact plain.at_token token
  | _ => exact plain.at_token token

theorem carries_bareArguments (named : Bool) :
    Carries border tied .firm .outside .outside (arguments parse none named) := by
  refine (carries_argument rules named).firm_bind fun item => ?_
  cases item
  all_goals
    refine .check isComma_of_closesStatement (fun token found => ?_) (.pure _)
    refine CarriesAt.to_whole (.inert_skip (inert_of_isComma found) (Carries.skipNewlines.bind_firm fun _ => ?_))
    rw [atCloser, pure_bind]
    exact .ite nofun fun _ => (rules.bareArguments _).firm_bind fun _ => .pure _

/-- What follows the arguments up to a closing bracket tells where they end. -/
theorem carries_arguments (closer : Bracket) (named : Bool) :
    Carries border tied .inner .outside .outside (arguments parse (some closer) named) := by
  refine (carries_argument rules named).bind_inner fun item => ?_
  cases item
  all_goals
    refine .test (fun token found => ?_) ?_
    on_goal 1 => refine .inert_skip (inert_of_isComma found) (Carries.skipNewlines.bind_inner fun _ => ?_)
    all_goals
      refine .checked fun _ => .ite (fun _ => .done _) fun _ => ?_
      exact (rules.arguments _ _).bind_inner fun _ => .done _

theorem carries_argumentList (closer : Bracket) :
    Carries border tied .inner .outside .outside (argumentList parse (some closer)) := by
  refine (rules.arguments (some closer) false).bind_inner fun found => ?_
  obtain ⟨args, pairs⟩ := found
  cases pairs with
  | nil => exact .done args
  | cons pair pairs => exact .done _

theorem carries_bareList : Carries border tied .firm .outside .outside (argumentList parse none) := by
  refine (rules.bareArguments false).firm_bind fun found => ?_
  obtain ⟨args, pairs⟩ := found
  cases pairs with
  | nil => exact .pure args
  | cons pair pairs => exact .pure _

theorem carries_commandArguments : Carries border tied .firm .outside .outside (commandArguments parse) :=
  (carries_bareList rules).leavingDo nofun

theorem carries_delimitedArguments (closer : Bracket) :
    Carries border tied .firm .within .outside (delimitedArguments parse closer) := by
  have closes (lexeme : Lexeme Token) (found : lexeme.isClosing closer = true) :
      Steps .within lexeme .outside ∧ Reach.whole.strands lexeme = false := by
    rw [eq_of_isClosing found]
    exact ⟨steps_closing closer, rfl⟩
  refine Carries.enclosed (Carries.skipNewlines.bind_firm fun _ => .accept closes rfl (.pure []) ?_) nofun
  refine ((carries_argumentList rules closer).inside 1).bind_firm fun args => Carries.skipNewlines.bind_firm fun _ => ?_
  exact (Shuts.closing closer _ args).toCarries

/-! Blocks -/

omit rules in
theorem steps_params {lexeme : Lexeme Token} (other : lexeme.isOperator "|" = false) :
    Steps ⟨0, .params⟩ lexeme ⟨0, .params⟩ := by
  intro more
  have stays : Spot.next .params lexeme = .params := by
    rw [Spot.next, other, if_neg Bool.false_ne_true]
  change some (⟨more + 0, Spot.next .params lexeme⟩ : Nest) = _
  rw [stays]
  rfl

omit rules in
theorem steps_bar : Steps ⟨0, .params⟩ (.operator "|") .outside :=
  fun _ => rfl

/-- A sign among the names is followed by the name it belongs to, so that it is not the last token before the border. -/
theorem carries_blockNames : Carries border tied .inner ⟨0, .params⟩ .outside (blockNames parse) := by
  have more : Carries border tied .inner ⟨0, .params⟩ .outside (parse .blockNames) := rules.carries .blockNames tied rfl
  have names (name : String) : Carries border tied .inner ⟨0, .params⟩ .outside
      (do return name :: (← parse .blockNames)) := more.bind_inner fun _ => .done _
  refine ⟨fun token => .check (.ite (fun bar => ?_) fun other => ?_), trivial⟩
  · have lexeme := eq_of_isOperator bar
    refine .skip ?_ (.done []) ?_
    · rw [lexeme]
      exact steps_bar
    · rw [lexeme]
      exact nofun
  · have steps := steps_params (Bool.not_eq_true _ ▸ other)
    obtain ⟨lexeme, pos, spaced⟩ := token
    cases lexeme with
    | identifier name | label name => exact .advance steps (names name) nofun
    | comma => exact .advance steps more nofun
    | opening bracket | closing bracket =>
      cases bracket with
      | round => exact .advance steps more nofun
      | _ => exact .read steps (fun _ => .of_fails nofun) nofun nofun
    | operator op =>
      refine .read steps (fun following => .peek ?_) (fun _ => .of_fails fun state lexeme rim here => ?_) nofun
      · obtain ⟨lexeme, pos', spaced'⟩ := following
        cases lexeme with
        | identifier name =>
          refine .ite (fun _ => .skip (steps_params rfl) (names name) nofun) fun _ => .of_fails nofun
        | _ => exact .of_fails nofun
      · rw [run_bind_of_ok (run_peek state), here]
        cases rim <;> exact nofun
    | _ => exact .read steps (fun _ => .of_fails nofun) (fun _ => .of_fails nofun) nofun

/-- What stands between the delimiters of a block: its parameters, which are between bars, and the rest. -/
theorem carries_block {depth : Nat} {next : List String → Parser α}
    (h : ∀ names, Shuts border true ⟨depth, .plain⟩ finish (next names))
    (bars : ∀ {state : State}, state.next.lexeme = .operator "|" → ∀ result, (next []).run state ≠ .ok result) :
    Carries border true .firm ⟨depth, .begun⟩ finish (blockParams parse >>= next) where
  at_token token := by
    rw [blockParams, bind_assoc]
    refine .peek ?_
    have none : Carries border true .firm ⟨depth, .begun⟩ finish (next []) := (h []).begun bars
    cases sign : token.lexeme.operator? with
    | none => exact none.at_token token
    | some op =>
      have lexeme := eq_of_operator? sign
      split
      · rename_i same
        obtain rfl := Option.some.inj same
        have steps : Steps ⟨depth, .begun⟩ token.lexeme ⟨depth, .plain⟩ := by
          rw [lexeme]
          exact fun _ => rfl
        simp only [bind_assoc, pure_bind]
        exact .skip steps (h []).toCarries fun _ => rfl
      · rename_i same
        obtain rfl := Option.some.inj same
        have steps : Steps ⟨depth, .begun⟩ token.lexeme ⟨depth, .params⟩ := by
          rw [lexeme]
          exact fun _ => rfl
        have names : Carries border true .inner ⟨0, .params⟩ .outside (parse .blockNames) :=
          rules.carries .blockNames true rfl
        simp only [bind_assoc, pure_bind]
        refine .skip steps ?_ fun _ => rfl
        exact (names.inside depth).bind_firm fun names => .still fun _ => (h names).toCarries
      · exact none.at_token token
  fits := by
    intro state after value here run left
    have sign : state.next.lexeme.operator? = none := (Border.rim_of_left_nil here).test rfl rfl
    rw [blockParams, bind_assoc, run_bind_of_ok (run_peek state), sign] at run
    exact (h []).eager here run left

theorem carries_exceptions : Carries border tied .inner .outside .outside (exceptions parse) := by
  refine .checked fun _ => .ite (fun _ => .done []) fun _ => rules.choice.bind_inner fun first => ?_
  refine .test (fun token found => .inert_skip (inert_of_isComma found) ?_) (.done [first])
  exact (rules.carries .exceptions tied rfl).bind_inner fun _ => .done _

theorem carries_rescueClause {token : Token} (found : token.lexeme.isKeyword "rescue" = true) :
    CarriesAt border tied token .outside .outside .inner (rescueClause parse) := by
  refine .inert_advance (inert_of_isKeyword found rfl) ?_
  refine (rules.carries .exceptions tied rfl).bind_inner fun classes => ?_
  have rest (binder : Option String) : Carries border tied .inner .outside .outside (do
      skipWord "then"
      return Node.rescueClause token.pos classes binder (← parse (.statements ⟨bodyWords, none⟩))) :=
    (carries_skipWord rfl).bind_inner fun _ => (rules.statements _).bind_inner fun _ => .done _
  refine .test (fun token found => .inert_skip (inert_of_isArrow found) ?_) (rest none)
  exact ((carries_consumeIdentifier _).bind_inner fun name => .still fun _ => rest (some name))

theorem carries_rescues : Carries border tied .inner .outside .outside (rescues parse) := by
  refine .test (fun token found => ?_) (.done [])
  exact (carries_rescueClause rules found).bind
    (fun _ => (rules.carries .rescues tied rfl).bind_inner fun _ => .done _) nofun

theorem carries_body (start : Position) : Carries border tied .inner .outside .outside (body parse start) := by
  refine (rules.statements _).bind_inner fun statements => ?_
  refine (rules.carries .rescues tied rfl).bind_inner fun rescues => ?_
  have ending (elseBody ensureBody : List Node) : Carries border tied .inner .outside .outside
      (if rescues.isEmpty && ensureBody.isEmpty then pure statements
        else pure [.guarded start statements rescues elseBody ensureBody] : Parser (List Node)) :=
    .ite (fun _ => .done _) fun _ => .done _
  have ensured (elseBody : List Node) : Carries border tied .inner .outside .outside (do
      let mut ensureBody := []
      if ← checkWord "ensure" then
        discard advance
        ensureBody ← parse (.statements ⟨["end"], none⟩)
      if rescues.isEmpty && ensureBody.isEmpty then return statements
      else return [.guarded start statements rescues elseBody ensureBody]) := by
    refine .test (fun token found => .inert_skip (inert_of_isKeyword found rfl) ?_) (ending elseBody [])
    exact (rules.statements _).bind_inner fun ensureBody => ending elseBody ensureBody
  refine .test (fun token found => .ite (fun _ => .inert_skip (inert_of_isKeyword found rfl) ?_) fun _ => ?_) ?_
  · exact (rules.statements _).bind_inner fun elseBody => ensured elseBody
  · exact (ensured []).at_token token
  · exact .ite (fun found => nomatch (Bool.and_eq_true_iff.1 found).2) fun _ => ensured []

/-- A block between braces. No bar begins its statements, so that one behind the brace begins its parameters. -/
theorem carries_braceBlock {token : Token} (found : token.lexeme.isOpening .curly = true) :
    CarriesAt border tied token .outside .outside .firm (braceBlock parse) := by
  have steps : Steps .outside token.lexeme ⟨1, .begun⟩ := by
    rw [eq_of_isOpening found]
    exact steps_curly
  refine .advance steps (Carries.inScope false (Carries.enclosed ?_ nofun) nofun) fun _ => rfl
  refine carries_block rules (fun names => ?_) fun bar _ run => ?_
  · exact Shuts.bind ((rules.statements _).inside 1) fun statements => .closing .curly _ _
  · obtain ⟨_, _, first, _⟩ := run_bind_eq_ok_iff.1 run
    exact rules.bars _ bar _ first

theorem carries_doBlock {token : Token} (found : token.lexeme.isKeyword "do" = true) :
    CarriesAt border tied token .outside .outside .firm (doBlock parse) := by
  have steps : Steps .outside token.lexeme ⟨0, .begun⟩ := by
    rw [eq_of_isKeyword found]
    exact steps_do
  refine .advance steps (Carries.inScope false (Carries.enclosed ?_ nofun) nofun) fun _ => rfl
  refine carries_block rules (fun names => ?_) fun bar _ run => ?_
  · exact Shuts.bind (carries_body rules _) fun statements => .ending _
  · obtain ⟨_, _, first, _⟩ := run_bind_eq_ok_iff.1 run
    obtain ⟨_, _, first, _⟩ := run_bind_eq_ok_iff.1 first
    exact rules.bars _ bar _ first

omit rules in
/-- A `do` outside nested brackets comes only where both runs wait alike. -/
theorem carries_free {token : Token} {next : Bool → Parser α} (found : token.lexeme.isKeyword "do" = true)
    (h : ∀ free, CarriesAt border true token .outside finish reach (next free)) :
    CarriesAt border tied token .outside finish reach (get >>= fun state => next (state.barred = 0)) where
  steady here run := (h _).steady here run
  spans here run := (h _).spans here run
  alone binds here run := (h _).alone binds here run
  carries {state twin _ _ _ _} alike run left allowed := by
    cases tied with
    | false =>
      have outside := ((Nest.shelters_cons.1 (alike.shelters rfl)).1 rfl).2
      exact nomatch outside.symm.trans found
    | true =>
      have same : twin.barred = state.barred := alike.barred rfl
      obtain ⟨after', run', found⟩ := (h _).carries alike run left allowed
      refine ⟨after', ?_, found⟩
      rw [run_bind_of_ok (run_get twin), same]
      exact run'

omit rules in
theorem blockOption_of_closesStatement {state : State} (ends : closesStatement state.next.lexeme = true) :
    (blockOption parse).run state = .ok (none, state) := by
  have brace : state.next.lexeme.isOpening .curly = false :=
    test_of_closesStatement ends rfl rfl rfl (fun _ => rfl) fun _ _ => rfl
  refine run_blockOption_none brace (.inl ?_)
  exact test_of_closesStatement ends rfl rfl rfl (fun _ => rfl) (by decide)

theorem carries_blockOption : Carries border tied .whole .outside .outside (blockOption parse) := by
  refine ⟨fun token => .peek (.ite (fun brace => ?_) fun _ => ?_), Rests.of_stays none fun state here => ?_⟩
  · exact ((carries_braceBlock rules brace).bind (fun _ => .pure _) fun _ => rfl)
  · cases found : token.lexeme.isKeyword "do" with
    | false => exact .congr (.pure none) fun _ _ => rfl
    | true =>
      have read (free : Bool) : CarriesAt border true token .outside .outside .whole
          (if true && free then some <$> doBlock parse else pure none) :=
        .ite (fun _ => (carries_doBlock rules found).bind (fun _ => .pure _) fun _ => rfl) fun _ => .pure none
      exact carries_free found read
  · exact blockOption_of_closesStatement here

theorem carries_callRest (name : String) (receiver : Option Node) (pos : Position) :
    Carries border tied .whole .outside .outside (callRest parse name receiver pos) := by
  have built (parens : Bool) (args : List Node) : Carries border tied .whole .outside .outside
      (do return Node.call pos name receiver args (← blockOption parse) parens) :=
    (carries_blockOption rules).bind_whole fun _ => .pure _
  refine .atCallParen (fun token paren => .atArgument fun _ => ?_) (.atArgument (fun token => ?_) (built false []))
  · refine CarriesAt.to_whole (.skip_opening paren nofun ?_)
    exact (carries_delimitedArguments rules .round).firm_bind fun args => built true args
  · exact ((carries_commandArguments rules).firm_bind fun args => built false args).to_whole.at_token token

theorem carries_colonTrailer (base : Node) :
    Carries border tied .firm .outside .outside (colonTrailer parse base) where
  at_token token := by
    obtain ⟨lexeme, pos, spaced⟩ := token
    cases lexeme with
    | constant name =>
      have follows : Carries border tied .whole .outside .outside (do
          if ← atCallParen then callRest parse name (some base) base.pos
          else return Node.constPath base.pos (some base) name) :=
        .atCallParen (fun token _ => (carries_callRest rules name _ _).at_token token) (.pure _)
      exact CarriesAt.to_firm (.inert_advance rfl follows)
    | identifier name =>
      have follows : Carries border tied .whole .outside .outside (do
          let _ ← atCallParen
          callRest parse name (some base) base.pos) :=
        .atCallParen (fun token _ => (carries_callRest rules name _ _).at_token token) (carries_callRest rules name _ _)
      exact CarriesAt.to_firm (.inert_advance rfl follows)
    | _ =>
      refine .of_fails fun state here result run => ?_
      rw [colonTrailer, run_bind_of_ok (run_advance state), run_bind_of_ok (run_atCallParen _), here] at run
      cases run
  fits := by
    refine .of_fails fun state lexeme rim here result run => ?_
    rw [colonTrailer, run_bind_of_ok (run_advance state), run_bind_of_ok (run_atCallParen _), here] at run
    cases rim <;> cases run

omit rules in
theorem steps_naming {lexeme : Lexeme Token} {word : String} (found : methodName? lexeme = some word) :
    Steps ⟨0, .naming⟩ lexeme .outside := by
  cases lexeme with
  | identifier name | constant name | keyword name => exact fun _ => rfl
  | _ => cases found

omit rules in
theorem strands_of_methodName? {lexeme : Lexeme Token} {word : String} (found : methodName? lexeme = some word) :
    Reach.whole.strands lexeme = false := by
  cases lexeme with
  | identifier name | constant name | keyword name => rfl
  | _ => cases found

/-- A method's name behind a dot, and what follows it. -/
theorem carries_dotTrailer (base : Node) : Carries border tied .firm ⟨0, .naming⟩ .outside (do
    skipNewlines
    let name ← advance
    match methodName? name.lexeme with
    | some word => parse (.trailers (← callRest parse word (some base) base.pos))
    | none => complainAt .expectedMethodName name) := by
  have newlines : Carries border tied .inner ⟨0, .naming⟩ ⟨0, .naming⟩ skipNewlines := by
    refine .skipWhile (fun lexeme newline => ?_) rfl
    cases lexeme with
    | newline => exact ⟨fun _ => rfl, rfl⟩
    | _ => cases newline
  refine newlines.bind_firm fun _ => ⟨fun token => ?_, .of_fails fun state lexeme rim here result run => ?_⟩
  · cases found : methodName? token.lexeme with
    | none =>
      refine .of_fails fun state here result run => ?_
      rw [run_bind_of_ok (run_advance state), here, found] at run
      cases run
    | some word =>
      have follows : Carries border tied .whole .outside .outside
          (do parse (.trailers (← callRest parse word (some base) base.pos))) :=
        (carries_callRest rules word _ _).bind_whole fun call => rules.trailers call
      refine CarriesAt.to_firm (.advance (steps_naming found) ?_ fun strands => ?_)
      · rw [found]
        exact follows
      · exact nomatch (strands_of_methodName? found).symm.trans strands
  · rw [run_bind_of_ok (run_advance state), here] at run
    cases rim <;> cases run

theorem carries_trailers (base : Node) : Carries border tied .whole .outside .outside (trailers parse base) := by
  refine ⟨fun token => .peek (.ite (fun dot => ?_) fun _ => .ite (fun colons => ?_) fun _ => .ite (fun square => ?_)
    fun _ => .pure base), Rests.of_stays base fun state here => ?_⟩
  · have steps : Steps .outside token.lexeme ⟨0, .naming⟩ := by
      cases same : token.lexeme with
      | dot | safeDot => exact fun _ => rfl
      | _ =>
        rw [same] at dot
        cases dot
    exact CarriesAt.to_whole (.skip steps (carries_dotTrailer rules base) fun _ => rfl)
  · refine CarriesAt.to_whole (.skip_colons colons ?_)
    exact (carries_colonTrailer rules base).firm_bind fun node => rules.trailers node
  · refine CarriesAt.to_whole (.skip_opening (eq_of_isOpening (Bool.and_eq_true_iff.1 square).1) nofun ?_)
    exact (carries_delimitedArguments rules .square).firm_bind fun args => rules.trailers _
  · have dot : state.next.lexeme.isDot = false :=
      test_of_closesStatement here rfl rfl rfl (fun _ => rfl) fun _ _ => rfl
    have colons : state.next.lexeme.isDoubleColon = false :=
      test_of_closesStatement here rfl rfl rfl (fun _ => rfl) fun _ _ => rfl
    have square : state.next.lexeme.isOpening .square = false :=
      test_of_closesStatement here rfl rfl rfl (fun _ => rfl) fun _ _ => rfl
    rw [trailers, run_bind_of_ok (run_peek state), dot, colons, square]
    rfl

end Formulary.Grammar
