import Formulary.Grammar.Control
import Formulary.Proofs.Scope.Calls

/-! What a keyword begins goes over the text as its walk does: loops declare their targets, definitions open scopes. -/

namespace Formulary.Grammar

open Walk (inTurn)

variable {parse : Rules} (rules : TracedRules parse)
include rules

variable {before : Walk} {places : List (Option Position)} {start : State} {token : Token}

theorem traces_elseClause : Traces (elseClause parse) walkOption fun _ => [] := by
  intro before places start
  refine triple_glance.bind fun token => .ite (fun _ => ?_) fun _ => ?_
  · exact triple_skip.bind fun _ => (rules.statements _).pass.bind fun statements =>
      .pure fun _ reads => reads.mono (by simp) (by simp)
  · exact .pure fun _ reads => reads.mono (by simp) (by simp)

theorem triple_branch : Triple (fun state => Reads before places start state ∧ state.ahead ≠ []) (branch parse)
    (ReadsNode before places start) := by
  refine triple_first.bind fun token => rules.connective.pass.bind fun cond => triple_skipWord.bind fun _ => ?_
  refine (rules.statements _).pass.bind fun statements => (triple_test _).bind fun further => .ite (fun elsif => ?_)
    fun _ => ?_
  · refine ((rules.branch _ _ _).weaken fun state ⟨reads, found⟩ => ⟨reads, ?_⟩).bind fun other =>
      .pure fun _ reads => reads.mono (by simp) (List.sublist_append_left _ _)
    refine reads.ahead_ne_nil fun final => ?_
    simp [found, final, Lexeme.isKeyword] at elsif
  · refine ((traces_elseClause rules).pass.weaken fun _ => And.left).bind fun orelse => triple_consumeWord.bind fun _ => ?_
    exact .pure fun _ reads => reads.mono (by simp) (.refl _)

theorem traces_loopBody : TracesAll (loopBody parse) := by
  intro before places start
  exact triple_skipWord.bind fun _ => (rules.statements _).pass.bind fun statements => triple_consumeWord.bind fun _ =>
    .pure fun _ reads => reads.mono rfl (by simp)

theorem triple_loop (inner : token.lexeme ≠ .endOfText) (polarity : Polarity) :
    Triple (At token (Reads before places start)) (loop parse polarity)
      (ReadsNode before places start) := by
  refine (triple_begin inner).bind fun opening => rules.connective.leavingDo.pass.bind fun cond => ?_
  exact (traces_loopBody rules).pass.bind fun body => .pure fun _ reads => reads.mono (by simp) (.refl _)

theorem traces_targets : Traces (targets parse) (fun _ => .nothing) fun _ => [] := by
  intro before places start
  refine triple_consumeIdentifier.bind fun name => triple_check.bind fun _ => .ite (fun _ => ?_) fun _ => ?_
  · exact triple_skip.bind fun _ => rules.targets.read.bind fun more => .pure fun _ => id
  · exact .pure fun _ reads => reads.mono (by simp) (by simp)

theorem triple_forLoop (inner : token.lexeme ≠ .endOfText) : Triple (At token (Reads before places start)) (forLoop parse)
    (ReadsNode before places start) := by
  refine (triple_begin inner).bind fun opening => rules.targets.pass.bind fun names => ?_
  refine (triple_forM_declare names).bind fun _ => triple_consumeWord.bind fun _ => ?_
  refine rules.connective.leavingDo.pass.bind fun iterable => (traces_loopBody rules).pass.bind fun body => ?_
  exact .pure fun _ reads => reads.mono (by simp) (.refl _)

theorem traces_whens : TracesAll (whens parse) := by
  intro before places start
  refine triple_glance.bind fun token => .ite (fun _ => ?_) fun _ => .pure fun _ reads => reads.mono (by simp) (by simp)
  refine triple_skip.bind fun _ => (traces_argumentList rules none).pass.bind fun values => triple_skipWord.bind fun _ => ?_
  refine (rules.statements _).pass.bind fun statements => rules.whens.pass.bind fun more => ?_
  exact .pure fun _ reads => reads.mono (by simp) (by simp)

theorem triple_caseOf (inner : token.lexeme ≠ .endOfText) : Triple (At token (Reads before places start)) (caseOf parse)
    (ReadsNode before places start) := by
  refine (triple_begin inner).bind fun opening => triple_check.bind fun _ => ?_
  have finish (subject : Option Node) : Triple
      (Reads (before.andThen (walkOption subject)) (places ++ [some opening.pos]) start)
      (do skipSeparators
          let clauses ← parse .whens
          if clauses.isEmpty then complain .expectedWhen
          let orelse ← elseClause parse
          consumeWord "end"
          return Node.caseOf opening.pos subject clauses orelse)
      (ReadsNode before places start) := by
    refine triple_skipSeparators.bind fun _ => rules.whens.pass.bind fun clauses => ?_
    have close : Triple
        (Reads ((before.andThen (walkOption subject)).andThen (walkAll clauses)) (places ++ [some opening.pos]) start)
        (do let orelse ← elseClause parse
            consumeWord "end"
            return Node.caseOf opening.pos subject clauses orelse)
        (ReadsNode before places start) :=
      (traces_elseClause rules).pass.bind fun orelse => triple_consumeWord.bind fun _ => .pure fun _ reads =>
        reads.mono (by simp) (.refl _)
    exact .ite (fun _ => triple_complain.bind fun _ => close) fun _ => close
  have subject : Triple (Reads before (places ++ [some opening.pos]) start) (some <$> parse .connective)
      fun subject => Reads (before.andThen (walkOption subject)) (places ++ [some opening.pos]) start :=
    rules.connective.pass.map fun _ _ reads => by simpa using reads
  exact .ite (fun _ => (finish none).weaken fun _ reads => by simpa using reads) fun _ => subject.bind finish

theorem triple_beginBlock (inner : token.lexeme ≠ .endOfText) :
    Triple (At token (Reads before places start)) (beginBlock parse)
      (ReadsNode before places start) := by
  refine (triple_begin inner).bind fun opening => (triple_body rules opening.pos).bind fun statements => ?_
  refine steady_bodyTraced.consume.bind fun _ => ?_
  have plain : Triple (BodyTraced before (places ++ [some opening.pos]) start opening.pos statements)
      (pure (Node.guarded opening.pos statements [] [] []))
      (ReadsNode before places start) :=
    .pure fun _ traced => traced.reads.mono (by simp) (.refl _)
  split
  · refine .pure fun state traced => ?_
    obtain here | reads := traced.single _ rfl
    · exact traced.reads.mono (by simp) (by rw [here])
    · exact reads.mono rfl (by simp)
  · exact plain

theorem triple_jump (inner : token.lexeme ≠ .endOfText) (word : String) :
    Triple (At token (Reads before places start)) (jump parse word)
      (ReadsNode before places start) := by
  refine (triple_begin inner).bind fun opening => triple_atArgument.bind fun _ => .ite (fun _ => ?_) fun _ => ?_
  · have value : Triple (Reads before (places ++ [some opening.pos]) start) (some <$> parse .expression)
        fun value => Reads (before.andThen (walkOption value)) (places ++ [some opening.pos]) start :=
      rules.expression.pass.map fun _ _ reads => by simpa using reads
    exact value.bind fun value => .pure fun _ reads => reads.mono (by simp) (.refl _)
  · exact .pure fun _ reads => reads.mono (by simp) (.refl _)

theorem triple_keywordCall (inner : token.lexeme ≠ .endOfText) (word : String) :
    Triple (At token (Reads before places start)) (keywordCall parse word)
      (ReadsNode before places start) := by
  refine (triple_begin inner).bind fun opening => triple_atCallParen.bind fun _ => triple_atArgument.bind fun _ => ?_
  have finish (args : List Node) : Triple
      (Reads (before.andThen (.byPosition (argumentWalks args))) (places ++ [some opening.pos]) start)
      (pure (Node.keywordCall opening.pos word args))
      (ReadsNode before places start) :=
    .pure fun _ reads => reads.mono (by simp) (.refl _)
  refine .ite (fun _ => ?_) fun _ => .ite (fun _ => ?_) fun _ => ?_
  · exact triple_skip.bind fun _ => (traces_delimitedArguments rules .round).pass.bind finish
  · exact (traces_commandArguments rules).pass.bind finish
  · exact (finish []).weaken fun _ reads => reads.mono (by simp) (.refl _)

/-! Definitions -/

omit rules in
theorem triple_methodHead : Triple (Reads before places start) methodHead fun _ => Reads before places start := by
  refine triple_advance.bind fun first => triple_check.bind fun dotted => .ite (fun _ => triple_skip.bind fun _ =>
    triple_advance.bind fun token => ?_) fun _ => ?_
  all_goals
    simp only [pure_bind]
    split
    · exact triple_complainAt
    · refine triple_glance.bind fun next => .ite (fun _ => ?_) fun _ => .pure fun _ => id
      exact triple_skip.bind fun _ => .pure fun _ => id

theorem traces_methodParams : Traces (methodParams parse) (fun names => inTurn (names.map .declare)) fun _ => [] := by
  intro before places start
  refine triple_check.bind fun parenthesized => .ite (fun _ => ?_) fun _ => (rules.params _).read
  exact triple_skip.bind fun _ => (rules.params _).read

theorem triple_methodDef (inner : token.lexeme ≠ .endOfText) :
    Triple (At token (Reads before places start)) (methodDef parse)
      (ReadsNode before places start) := by
  refine (triple_begin inner).bind fun opening => triple_methodHead.bind fun head => ?_
  refine (Triple.scoped opening.pos fun start => ?_).mono (fun _ => id) fun node state read =>
    read.2.mono rfl (by rw [read.1])
  refine (traces_methodParams rules).pass.bind fun params => (triple_body rules opening.pos).bind fun statements => ?_
  exact (triple_consumeWord.weaken fun _ => BodyTraced.reads).bind fun _ => .pure fun _ reads =>
    ⟨_, by simp, rfl, reads⟩

theorem traces_constantNames : Traces (constantNames parse) (fun _ => .nothing) fun _ => [] := by
  intro before places start
  refine triple_consumeConstant.bind fun name => triple_check.bind fun _ => .ite (fun _ => ?_) fun _ => ?_
  · exact triple_skip.bind fun _ => rules.constantNames.read.bind fun more => .pure fun _ => id
  · exact .pure fun _ reads => reads.mono (by simp) (by simp)

theorem triple_constantName : Triple (Reads before places start) (constantName parse)
    fun _ => Reads before places start :=
  rules.constantNames.pass.bind fun _ => .pure fun _ reads => reads.mono (by simp) (.refl _)

theorem triple_definitionBody : Triple (Reads before places start) (definitionBody parse)
    fun nodes => Reads (before.andThen ((walkAll nodes).inScope true)) places start := by
  refine (Triple.inScope (fun nodes inner => inner = walkAll nodes) fun start => ?_).mono (fun _ => id)
    fun nodes state ⟨inner, same, reads⟩ => reads.mono (by rw [same]) (.refl _)
  exact (rules.statements _).pass.bind fun statements => triple_consumeWord.bind fun _ =>
    .pure fun _ reads => ⟨_, rfl, reads⟩

theorem triple_classDef (inner : token.lexeme ≠ .endOfText) :
    Triple (At token (Reads before places start)) (classDef parse)
      (ReadsNode before places start) := by
  refine (triple_begin inner).bind fun opening => triple_check.bind fun _ => ?_
  have finish (name : String) (superclass : Option Node) : Triple
      (Reads (before.andThen (walkOption superclass)) (places ++ [some opening.pos]) start)
      (do return Node.classDef opening.pos name superclass (← definitionBody parse))
      (ReadsNode before places start) :=
    (triple_definitionBody rules).bind fun body => .pure fun _ reads => reads.mono (by simp) (.refl _)
  have superclass : Triple (Reads before (places ++ [some opening.pos]) start) (some <$> parse .expression)
      fun superclass => Reads (before.andThen (walkOption superclass)) (places ++ [some opening.pos]) start :=
    rules.expression.pass.map fun _ _ reads => by simpa using reads
  have rest : Triple (Reads before (places ++ [some opening.pos]) start)
      (do let name ← constantName parse
          let superclass ←
            if ← check (·.isOperator "<") then do
              discard advance
              some <$> parse .expression
            else pure none
          return Node.classDef opening.pos name superclass (← definitionBody parse))
      (ReadsNode before places start) := by
    refine (triple_constantName rules).bind fun name => triple_check.bind fun _ => .ite (fun _ => ?_) fun _ => ?_
    · exact triple_skip.bind fun _ => superclass.bind (finish name)
    · exact (finish name none).weaken fun _ reads => by simpa using reads
  exact .ite (fun _ => triple_complain.bind fun _ => rest) fun _ => rest

theorem triple_moduleDef (inner : token.lexeme ≠ .endOfText) :
    Triple (At token (Reads before places start)) (moduleDef parse)
      (ReadsNode before places start) := by
  refine (triple_begin inner).bind fun opening => (triple_constantName rules).bind fun name => ?_
  exact (triple_definitionBody rules).bind fun body => .pure fun _ reads => reads.mono (by simp) (.refl _)

end Formulary.Grammar
