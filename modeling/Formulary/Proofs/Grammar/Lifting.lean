import Formulary.Proofs.Grammar.Quiet
import Formulary.Proofs.Token.Names

/-!
Relations between parsers that the constructs of the grammar lift: when the parsers of two grammars are related rule by
rule, then so are the constructs over them.
-/

namespace Formulary.Grammar

variable {α β : Type}

/-- Why a token that is written as a number is none. -/
def numberFault? : Lexeme Token → Option Text.NumberFault
  | .integer digits => match Text.integerLiteral digits with
    | .ok _ => none
    | .error fault => some fault
  | .float digits => match Text.floatLiteral digits with
    | .ok _ => none
    | .error fault => some fault
  | _ => none

/-- What holds of the code that a rule reads. -/
def Rule.Holds (sound : List Token → Prop) : {α : Type} → Rule α → Prop
  | _, .code tokens _ => sound tokens
  | _, _ => True

/-- A relation between parsers that every construct of the grammar lifts. The tokens that are looked at have a property
of which something follows for the code in them. -/
structure Lifting where
  good : Token → Prop
  sound : List Token → Prop
  Related {α : Type} : Parser α → Parser α → Prop
  inner {token : Token} {tokens : List Token} {pos : Position} :
    good token → .code tokens pos ∈ token.lexeme.segments → sound tokens
  quiet {α : Type} (p : Parser α) [Restoring p] : Related p p
  bind {α β : Type} {p q : Parser α} {next next' : α → Parser β} :
    Related p q → (∀ value, Related (next value) (next' value)) → Related (p >>= next) (q >>= next')
  around {α : Type} {enter : State → State} {leave : State → State → State} {p q : Parser α} :
    Brackets enter leave → Related p q → Related (around enter leave p) (around enter leave q)
  look {α : Type} {next next' : Token → Parser α} :
    (∀ token, good token → Related (next token) (next' token)) → Related (peek >>= next) (peek >>= next')
  number {α : Type} {token : Token} {value : Except Text.NumberFault α} : good token →
    (∀ fault, value = .error fault → numberFault? token.lexeme = some fault) →
      Related (fromNumber value) (fromNumber value)
  embedded {parse wider : Rules} {tokens : List Token} (pos : Position) : sound tokens →
    Related (parse (.statements {})) (wider (.statements {})) →
      Related (embedded parse tokens pos) (embedded wider tokens pos)

namespace Lifting

variable {lifting : Lifting}

namespace Related

variable {p q p' q' : Parser α}

theorem quiet (p : Parser α) [Restoring p] : lifting.Related p p :=
  lifting.quiet p

theorem bind {next next' : α → Parser β} (h : lifting.Related p q)
    (hnext : ∀ value, lifting.Related (next value) (next' value)) : lifting.Related (p >>= next) (q >>= next') :=
  lifting.bind h hnext

theorem after [Restoring p] {next next' : α → Parser β} (h : ∀ value, lifting.Related (next value) (next' value)) :
    lifting.Related (p >>= next) (p >>= next') :=
  (quiet p).bind h

theorem last {next : α → Parser β} [∀ value, Restoring (next value)] (h : lifting.Related p q) :
    lifting.Related (p >>= next) (q >>= next) :=
  h.bind fun _ => quiet _

theorem map {f : α → β} (h : lifting.Related p q) : lifting.Related (f <$> p) (f <$> q) := by
  rw [map_eq_pure_bind, map_eq_pure_bind]
  exact h.last

theorem look {next next' : Token → Parser α}
    (h : ∀ token, lifting.good token → lifting.Related (next token) (next' token)) :
    lifting.Related (peek >>= next) (peek >>= next') :=
  lifting.look h

theorem ite {test : Prop} {_ : Decidable test} (h : lifting.Related p q) (h' : lifting.Related p' q') :
    lifting.Related (if test then p else p') (if test then q else q') := by
  split
  · exact h
  · exact h'

theorem mapM {run run' : β → Parser α} {items : List β} (h : ∀ item ∈ items, lifting.Related (run item) (run' item)) :
    lifting.Related (items.mapM run) (items.mapM run') := by
  induction items with
  | nil => exact quiet (Pure.pure [])
  | cons item rest ih =>
    obtain ⟨here, beside⟩ := List.forall_mem_cons.1 h
    rw [List.mapM_cons, List.mapM_cons]
    exact here.bind fun _ => (ih beside).last

theorem inScope {hard : Bool} (h : lifting.Related p q) : lifting.Related (inScope hard p) (inScope hard q) :=
  lifting.around (.inScope hard) h

theorem enclosed (h : lifting.Related p q) : lifting.Related (enclosed p) (enclosed q) :=
  lifting.around .enclosed h

theorem leavingDo (h : lifting.Related p q) : lifting.Related (leavingDo p) (leavingDo q) :=
  lifting.around .leavingDo h

end Related

variable (lifting) in
/-- The code among the parts of a string is sound. -/
def Held (segments : List (Segment Token)) : Prop :=
  ∀ tokens pos, .code tokens pos ∈ segments → lifting.sound tokens

variable (lifting) in
theorem held_of_good {token : Token} {segments : List (Segment Token)} (good : lifting.good token)
    (same : token.lexeme.segments = segments) : lifting.Held segments := by
  subst same
  exact fun _ _ mem => lifting.inner good mem

variable (lifting) in
/-- Parsers that begin with others, and go on with parsers that are related. -/
def Led (first first' : Parser β) (p q : Parser α) : Prop :=
  ∃ next next' : β → Parser α, p = first >>= next ∧ q = first' >>= next' ∧
    ∀ value, lifting.Related (next value) (next' value)

theorem Led.intro {first first' : Parser β} {next next' : β → Parser α}
    (h : ∀ value, lifting.Related (next value) (next' value)) :
    lifting.Led first first' (first >>= next) (first' >>= next') :=
  ⟨next, next', rfl, rfl, h⟩

theorem Led.related {first first' : Parser β} {p q : Parser α} (h : lifting.Led first first' p q)
    (begin : lifting.Related first first') : lifting.Related p q := by
  obtain ⟨next, next', rfl, rfl, h⟩ := h
  exact begin.bind h

variable (lifting) in
/-- Parsers that read a token first. -/
abbrev Headed (p q : Parser α) : Prop :=
  lifting.Led advance advance p q

theorem Headed.related {p q : Parser α} (h : lifting.Headed p q) : lifting.Related p q :=
  Led.related h (.quiet advance)

/-- Parsers of all rules that are related rule by rule. -/
structure Rules (lifting : Lifting) (parse wider : Grammar.Rules) : Prop where
  on {α : Type} (rule : Rule α) (holds : rule.Holds lifting.sound) : lifting.Related (parse rule) (wider rule)

variable {parse wider : Grammar.Rules} (rules : lifting.Rules parse wider)
include rules

namespace Rules

theorem statements (stop : Stop) : lifting.Related (parse (.statements stop)) (wider (.statements stop)) :=
  rules.on _ trivial

theorem modifiers (node : Node) : lifting.Related (parse (.modifiers node)) (wider (.modifiers node)) :=
  rules.on _ trivial

theorem connectiveRest (left : Node) : lifting.Related (parse (.connectiveRest left)) (wider (.connectiveRest left)) :=
  rules.on _ trivial

theorem binary (least : Nat) : lifting.Related (parse (.binary least)) (wider (.binary least)) :=
  rules.on _ trivial

theorem binaryRest (least : Nat) (left : Node) :
    lifting.Related (parse (.binaryRest least left)) (wider (.binaryRest least left)) :=
  rules.on _ trivial

theorem arguments (closer : Option Bracket) (named : Bool) :
    lifting.Related (parse (.arguments closer named)) (wider (.arguments closer named)) :=
  rules.on _ trivial

theorem trailers (base : Node) : lifting.Related (parse (.trailers base)) (wider (.trailers base)) :=
  rules.on _ trivial

end Rules

/-! Statements and operators -/

theorem lifted_statements (stop : Stop) : lifting.Related (statements parse stop) (statements wider stop) := by
  refine .after fun _ => .after fun _ =>
    .ite (.quiet _) ((rules.on .statement trivial).bind fun first => .after fun _ => ?_)
  exact .after fun _ => .ite (.after fun _ => (rules.statements _).last) (rules.statements _).last

theorem lifted_modifiers (node : Node) : lifting.Related (modifiers parse node) (modifiers wider node) := by
  refine .after fun token => ?_
  dsimp only
  split
  case h_6 => exact .quiet _
  all_goals exact .after fun _ => (rules.on .connective trivial).bind fun _ => rules.modifiers _

theorem lifted_connectiveRest (left : Node) :
    lifting.Related (connectiveRest parse left) (connectiveRest wider left) := by
  refine .after fun token => ?_
  cases token.lexeme.keyword? with
  | none => exact .quiet _
  | some word =>
    refine .ite (.after fun _ => .after fun _ => ?_) (.quiet _)
    exact (rules.on .negation trivial).bind fun _ => rules.connectiveRest _

theorem lifted_negation : lifting.Related (negation parse) (negation wider) :=
  .after fun _ => .ite (.after fun _ => (rules.on .negation trivial).last) (rules.on .expression trivial)

theorem lifted_expression :
    lifting.Led (parse .choice) (wider .choice) (expression parse) (expression wider) := by
  refine .intro fun target => .after fun token => ?_
  cases token.lexeme.operator? with
  | none => exact .quiet _
  | some op =>
    refine .ite (.after fun _ => .after fun _ => .after fun _ => (rules.on .expression trivial).last) ?_
    exact .ite (.after fun _ => .after fun _ => .after fun _ => (rules.on .expression trivial).last) (.quiet _)

theorem lifted_range :
    lifting.Led (parse (.binary 0)) (wider (.binary 0)) (range parse) (range wider) := by
  refine .intro fun low => .after fun token =>
    .ite (.after fun _ => .after fun _ => ?_) (.quiet _)
  exact .ite (.quiet _) ((rules.on (.binary 0) trivial).map.last)

theorem lifted_choice : lifting.Led (range parse) (range wider) (choice parse) (choice wider) := by
  refine .intro fun cond => .after fun _ => .ite (.after fun _ => .after fun _ => ?_) (.quiet _)
  exact (rules.on .choice trivial).bind fun _ => .after fun _ => .after fun _ => .after fun _ =>
    (rules.on .choice trivial).last

theorem lifted_binaryRest (least : Nat) (left : Node) :
    lifting.Related (binaryRest parse least left) (binaryRest wider least left) := by
  refine .after fun token => ?_
  cases token.lexeme.operator? with
  | none => exact .quiet _
  | some op =>
    dsimp only
    cases precedence? op with
    | none => exact .quiet _
    | some precedence =>
      refine .ite (.quiet _) (.after fun _ => .after fun _ => ?_)
      exact (rules.binary _).bind fun _ => rules.binaryRest _ _

theorem lifted_unary : lifting.Related (unary parse) (unary wider) := by
  refine .after fun token => ?_
  cases token.lexeme.operator? with
  | none => exact rules.on .operand trivial
  | some op =>
    refine .ite (.after fun _ => (rules.on .unary trivial).last) ?_
    refine .ite (.after fun _ => .after fun _ => ?_) (rules.on .operand trivial)
    exact .ite (rules.on .operand trivial).last (rules.on .unary trivial).last

/-! Calls -/

theorem lifted_argument (named : Bool) : lifting.Related (argument parse named) (argument wider named) := by
  refine .after fun token => ?_
  have plain : lifting.Related
      (do let value ← parse .expression
          if ← check Lexeme.isArrow then
            discard advance
            skipNewlines
            return Sum.inr (value, ← parse .expression)
          else if named then complain .positionalAfterPairs
          else return Sum.inl value)
      (do let value ← wider .expression
          if ← check Lexeme.isArrow then
            discard advance
            skipNewlines
            return Sum.inr (value, ← wider .expression)
          else if named then complain .positionalAfterPairs
          else return Sum.inl value) :=
    (rules.on .expression trivial).bind fun _ => .after fun _ =>
      .ite (.after fun _ => .after fun _ => (rules.on .expression trivial).last) (.quiet _)
  cases token.lexeme with
  | label name => exact .after fun _ => .after fun _ => (rules.on .expression trivial).last
  | operator spelling =>
    split
    · contradiction
    · exact .after fun _ => (rules.on .expression trivial).last
    · exact .after fun _ => (rules.on .expression trivial).last
    · exact .after fun _ => (rules.on .expression trivial).last
    · exact plain
  | _ => exact plain

theorem lifted_arguments (closer : Option Bracket) (named : Bool) :
    lifting.Led (argument parse named) (argument wider named) (arguments parse closer named)
      (arguments wider closer named) := by
  refine .intro fun item => ?_
  cases item with
  | inl arg =>
    refine .after fun goOn => .ite (.after fun _ => .after fun _ => ?_) ?_
    all_goals
      refine .after fun _ => .ite (.after fun _ => .quiet (Pure.pure _)) ?_
      exact (rules.arguments closer _).bind fun _ => .quiet (Pure.pure _)
  | inr pair =>
    refine .after fun goOn => .ite (.after fun _ => .after fun _ => ?_) ?_
    all_goals
      refine .after fun _ => .ite (.after fun _ => .quiet (Pure.pure _)) ?_
      exact (rules.arguments closer _).bind fun _ => .quiet (Pure.pure _)

theorem lifted_argumentList (closer : Option Bracket) :
    lifting.Related (argumentList parse closer) (argumentList wider closer) := by
  refine (rules.arguments closer false).bind fun found => ?_
  obtain ⟨args, pairs⟩ := found
  cases pairs <;> exact .quiet (Pure.pure _)

theorem lifted_delimitedArguments (closer : Bracket) :
    lifting.Related (delimitedArguments parse closer) (delimitedArguments wider closer) :=
  .enclosed (.after fun _ => .after fun _ => .ite (.quiet _) (lifted_argumentList rules (some closer)).last)

theorem lifted_blockNames : lifting.Related (blockNames parse) (blockNames wider) := by
  refine .after fun _ => .ite (.quiet _) (.after fun token => ?_)
  cases token.lexeme with
  | identifier name | label name => exact (rules.on .blockNames trivial).last
  | operator op =>
    refine .after fun next => ?_
    cases next.lexeme with
    | identifier name => exact .ite (.after fun _ => (rules.on .blockNames trivial).last) (.quiet _)
    | _ => exact .quiet _
  | comma => exact rules.on .blockNames trivial
  | opening bracket | closing bracket =>
    cases bracket with
    | round => exact rules.on .blockNames trivial
    | _ => exact .quiet _
  | _ => exact .quiet _

theorem lifted_blockParams : lifting.Related (blockParams parse) (blockParams wider) := by
  refine .after fun token => ?_
  generalize token.lexeme.operator? = op
  split
  · exact .quiet _
  · exact .after fun _ => (rules.on .blockNames trivial).last
  · exact .quiet _

theorem lifted_body (start : Position) : lifting.Related (body parse start) (body wider start) := by
  refine (rules.statements _).bind fun statements => (rules.on .rescues trivial).bind fun rescues => .after fun _ => ?_
  refine .ite (.after fun _ => (rules.statements _).bind fun elseBody => .after fun _ => ?_) (.after fun _ => ?_)
  · exact .ite (.after fun _ => (rules.statements _).last) (.quiet _)
  · exact .ite (.after fun _ => (rules.statements _).last) (.quiet _)

theorem lifted_exceptions : lifting.Related (exceptions parse) (exceptions wider) :=
  .after fun _ => .ite (.quiet _) ((rules.on .choice trivial).bind fun _ => .after fun _ =>
    .ite (.after fun _ => (rules.on .exceptions trivial).last) (.quiet _))

theorem lifted_rescueClause : lifting.Headed (rescueClause parse) (rescueClause wider) := by
  refine .intro fun token => (rules.on .exceptions trivial).bind fun classes => .after fun _ => .ite ?_ ?_
  · exact .after fun _ => .after fun _ => .after fun _ => .after fun _ => (rules.statements _).last
  · exact .after fun _ => (rules.statements _).last

theorem lifted_rescues : lifting.Related (rescues parse) (rescues wider) :=
  .after fun _ => .ite ((lifted_rescueClause rules).related.bind fun _ => (rules.on .rescues trivial).last) (.quiet _)

theorem lifted_braceBlock : lifting.Headed (braceBlock parse) (braceBlock wider) :=
  .intro fun _ => .inScope (.enclosed ((lifted_blockParams rules).bind fun _ => (rules.statements _).last))

theorem lifted_doBlock : lifting.Headed (doBlock parse) (doBlock wider) :=
  .intro fun token => .inScope (.enclosed ((lifted_blockParams rules).bind fun _ => (lifted_body rules token.pos).last))

theorem lifted_blockOption : lifting.Related (blockOption parse) (blockOption wider) :=
  .after fun _ => .ite (lifted_braceBlock rules).related.last (.after fun _ => .ite (lifted_doBlock rules).related.last (.quiet _))

theorem lifted_callRest (name : String) (receiver : Option Node) (pos : Position) :
    lifting.Related (callRest parse name receiver pos) (callRest wider name receiver pos) := by
  refine .after fun parens => .after fun _ => .ite (.after fun _ => ?_) (.ite ?_ ?_)
  · exact (lifted_delimitedArguments rules .round).bind fun _ => (lifted_blockOption rules).last
  · exact (lifted_argumentList rules none).leavingDo.bind fun _ => (lifted_blockOption rules).last
  · exact .after fun _ => (lifted_blockOption rules).last

theorem lifted_colonTrailer (base : Node) : lifting.Related (colonTrailer parse base) (colonTrailer wider base) := by
  refine .after fun token => .after fun called => ?_
  cases token.lexeme with
  | constant name => exact .ite (lifted_callRest rules name (some base) base.pos) (.quiet _)
  | identifier name => exact lifted_callRest rules name (some base) base.pos
  | _ => exact .quiet _

theorem lifted_trailers (base : Node) : lifting.Related (trailers parse base) (trailers wider base) := by
  refine .after fun token => .ite (.after fun _ => .after fun _ => .after fun name => ?_) (.ite ?_ (.ite ?_ (.quiet _)))
  · cases methodName? name.lexeme with
    | none => exact .quiet _
    | some word => exact (lifted_callRest rules word (some base) base.pos).bind fun _ => rules.trailers _
  · exact .after fun _ => (lifted_colonTrailer rules base).bind fun _ => rules.trailers _
  · exact .after fun _ => (lifted_delimitedArguments rules .square).bind fun _ => rules.trailers _

/-! Literals -/

theorem lifted_pieces {segments : List (Segment Token)} (held : lifting.Held segments) :
    lifting.Related (pieces parse segments) (pieces wider segments) := by
  refine .mapM fun segment mem => ?_
  cases segment with
  | text value => exact .quiet (pure _)
  | code tokens pos => exact rules.on (.code tokens pos) (held tokens pos mem)

theorem lifted_adjacent : lifting.Related (adjacent parse) (adjacent wider) := by
  refine .look fun token good => ?_
  cases lexeme : token.lexeme with
  | string segments =>
    have held : lifting.Held segments := lifting.held_of_good good (by rw [lexeme]; rfl)
    exact .ite (.after fun _ => (lifted_pieces rules held).bind fun _ => (rules.on .adjacent trivial).last) (.quiet _)
  | _ => exact .quiet (pure _)

theorem lifted_stringLiteral (pos : Position) {segments : List (Segment Token)} (held : lifting.Held segments) :
    lifting.Related (stringLiteral parse pos segments) (stringLiteral wider pos segments) :=
  (lifted_pieces rules held).bind fun _ => (rules.on .adjacent trivial).last

theorem lifted_hashKey : lifting.Related (hashKey parse) (hashKey wider) := by
  refine .after fun token => ?_
  cases token.lexeme with
  | label name => exact .quiet _
  | _ => exact (rules.on .expression trivial).last

theorem lifted_pairs : lifting.Related (pairs parse) (pairs wider) := by
  refine .after fun _ => .ite (.quiet _) ?_
  refine (lifted_hashKey rules).bind fun _ => (rules.on .expression trivial).bind fun _ => ?_
  exact .after fun _ => .after fun _ => .ite (.after fun _ => .after fun _ => (rules.on .pairs trivial).last) (.quiet _)

theorem lifted_hash : lifting.Headed (hash parse) (hash wider) :=
  .intro fun _ => .enclosed (.after fun _ => (rules.on .pairs trivial).last)

/-! Keywords -/

theorem lifted_elseClause : lifting.Related (elseClause parse) (elseClause wider) :=
  .after fun _ => .ite (.after fun _ => (rules.statements _).last) (.quiet _)

theorem lifted_branch : lifting.Headed (branch parse) (branch wider) := by
  refine .intro fun token => (rules.on .connective trivial).bind fun cond => .after fun _ =>
    (rules.statements _).bind fun statements => ?_
  exact .after fun _ => .ite (rules.on .branch trivial).last (lifted_elseClause rules).last

theorem lifted_loopBody : lifting.Related (loopBody parse) (loopBody wider) :=
  .after fun _ => (rules.statements _).last

theorem lifted_loop (polarity : Polarity) : lifting.Headed (loop parse polarity) (loop wider polarity) :=
  .intro fun _ => (rules.on .connective trivial).leavingDo.bind fun _ => (lifted_loopBody rules).last

theorem lifted_targets : lifting.Related (targets parse) (targets wider) :=
  .after fun _ => .after fun _ => .ite (.after fun _ => (rules.on .targets trivial).last) (.quiet _)

theorem lifted_forLoop : lifting.Headed (forLoop parse) (forLoop wider) := by
  refine .intro fun _ => (rules.on .targets trivial).bind fun _ => .after fun _ => .after fun _ => ?_
  exact (rules.on .connective trivial).leavingDo.bind fun _ => (lifted_loopBody rules).last

theorem lifted_whens : lifting.Related (whens parse) (whens wider) := by
  refine .after fun _ =>
    .ite (.after fun _ => (lifted_argumentList rules none).bind fun _ => .after fun _ => ?_) (.quiet _)
  exact (rules.statements _).bind fun _ => (rules.on .whens trivial).last

theorem lifted_caseOf : lifting.Headed (caseOf parse) (caseOf wider) := by
  refine .intro fun token => .after fun _ => ?_
  have close (subject : Option Node) : lifting.Related
      (do skipSeparators
          let clauses ← parse .whens
          if clauses.isEmpty then complain .expectedWhen
          let orelse ← elseClause parse
          consumeWord "end"
          return Node.caseOf token.pos subject clauses orelse)
      (do skipSeparators
          let clauses ← wider .whens
          if clauses.isEmpty then complain .expectedWhen
          let orelse ← elseClause wider
          consumeWord "end"
          return Node.caseOf token.pos subject clauses orelse) :=
    .after fun _ => (rules.on .whens trivial).bind fun _ =>
      .ite (.after fun _ => (lifted_elseClause rules).last) (lifted_elseClause rules).last
  exact .ite (.after fun subject => close subject) ((rules.on .connective trivial).map.bind close)

theorem lifted_beginBlock : lifting.Headed (beginBlock parse) (beginBlock wider) := by
  refine .intro fun token => (lifted_body rules token.pos).bind fun statements => .after fun _ => ?_
  split <;> exact .quiet (pure _)

theorem lifted_jump (word : String) : lifting.Headed (jump parse word) (jump wider word) :=
  .intro fun _ => .after fun _ => .ite (rules.on .expression trivial).map.last (.quiet _)

theorem lifted_keywordCall (word : String) : lifting.Headed (keywordCall parse word) (keywordCall wider word) := by
  refine .intro fun _ => .after fun _ => .after fun _ => .ite (.after fun _ => ?_) (.ite ?_ (.quiet _))
  · exact (lifted_delimitedArguments rules .round).last
  · exact (lifted_argumentList rules none).leavingDo.last

theorem lifted_params (parenthesized : Bool) :
    lifting.Related (params parse parenthesized) (params wider parenthesized) := by
  refine .after fun _ => .ite (.quiet _) (.after fun token => ?_)
  have more (name : String) : lifting.Related (do return name :: (← parse (.params parenthesized)))
      (do return name :: (← wider (.params parenthesized))) :=
    (rules.on (.params parenthesized) trivial).last
  cases token.lexeme with
  | identifier name =>
    refine .after fun _ => .after fun _ => .ite (.after fun _ => ?_) (more name)
    exact (rules.on .choice trivial).map.bind fun _ => more name
  | label name =>
    exact .after fun _ => .after fun _ => .ite ((rules.on .choice trivial).map.bind fun _ => more name) (more name)
  | operator op =>
    refine .ite (.after fun next => ?_) (.quiet _)
    cases next.lexeme with
    | identifier name => exact .after fun _ => .after fun _ => more name
    | _ => exact rules.on (.params parenthesized) trivial
  | comma => exact rules.on (.params parenthesized) trivial
  | _ => exact .quiet _

theorem lifted_methodDef : lifting.Headed (methodDef parse) (methodDef wider) := by
  refine .intro fun token => .after fun head =>
    .inScope (.enclosed (.bind ?_ fun _ => (lifted_body rules token.pos).last))
  exact .after fun parenthesized =>
    .ite (.after fun _ => rules.on (.params parenthesized) trivial) (rules.on (.params parenthesized) trivial)

theorem lifted_constantNames : lifting.Related (constantNames parse) (constantNames wider) :=
  .after fun _ => .after fun _ => .ite (.after fun _ => (rules.on .constantNames trivial).last) (.quiet _)

theorem lifted_definitionBody : lifting.Related (definitionBody parse) (definitionBody wider) :=
  .inScope (rules.statements _).last

theorem lifted_classDef : lifting.Headed (classDef parse) (classDef wider) := by
  refine .intro fun token => .after fun _ => ?_
  have rest : lifting.Related
      (do let name ← constantName parse
          let superclass ←
            if ← check (·.isOperator "<") then do
              discard advance
              some <$> parse .expression
            else pure none
          return Node.classDef token.pos name superclass (← definitionBody parse))
      (do let name ← constantName wider
          let superclass ←
            if ← check (·.isOperator "<") then do
              discard advance
              some <$> wider .expression
            else pure none
          return Node.classDef token.pos name superclass (← definitionBody wider)) := by
    refine (rules.on .constantNames trivial).last.bind fun name => .after fun _ => .ite (.after fun _ => ?_) ?_
    · exact (rules.on .expression trivial).map.bind fun _ => (lifted_definitionBody rules).last
    · exact .after fun _ => (lifted_definitionBody rules).last
  exact .ite (.after fun _ => rest) rest

theorem lifted_moduleDef : lifting.Headed (moduleDef parse) (moduleDef wider) :=
  .intro fun _ => (rules.on .constantNames trivial).last.bind fun _ => (lifted_definitionBody rules).last

theorem lifted_keyword (token : Token) (word : String) :
    lifting.Related (keyword parse token word) (keyword wider token word) := by
  unfold keyword
  split
  case h_6 | h_7 => exact rules.on .branch trivial
  case h_8 | h_9 => exact (lifted_loop rules _).related
  case h_10 => exact (lifted_forLoop rules).related
  case h_11 => exact (lifted_caseOf rules).related
  case h_12 => exact (lifted_beginBlock rules).related
  case h_13 => exact (lifted_methodDef rules).related
  case h_14 => exact (lifted_classDef rules).related
  case h_15 => exact (lifted_moduleDef rules).related
  case h_16 | h_17 | h_18 => exact (lifted_jump rules _).related
  case h_19 | h_20 => exact (lifted_keywordCall rules _).related
  case h_21 => exact .after fun _ => (rules.on .expression trivial).last
  all_goals exact .quiet _

theorem lifted_primary : lifting.Related (primary parse) (primary wider) := by
  refine .look fun token good => ?_
  dsimp only
  cases lexeme : token.lexeme with
  | integer digits =>
    refine .after fun _ => (lifting.number good fun fault wrong => ?_).last
    simp [lexeme, numberFault?, wrong]
  | float digits =>
    refine .after fun _ => (lifting.number good fun fault wrong => ?_).last
    simp [lexeme, numberFault?, wrong]
  | string segments =>
    exact .after fun _ => lifted_stringLiteral rules token.pos (lifting.held_of_good good (by rw [lexeme]; rfl))
  | shell segments => exact .after fun _ => (lifted_pieces rules (lifting.held_of_good good (by rw [lexeme]; rfl))).last
  | constant name => exact .after fun _ => .after fun _ => .ite (lifted_callRest rules name none token.pos) (.quiet _)
  | identifier name =>
    exact .after fun _ => .after fun _ => .after fun _ => .ite (.quiet _) (lifted_callRest rules name none token.pos)
  | keyword word => exact lifted_keyword rules token word
  | opening bracket =>
    cases bracket with
    | round => exact .after fun _ => .enclosed (rules.statements _).last
    | square => exact .after fun _ => (lifted_delimitedArguments rules .square).last
    | curly => exact (lifted_hash rules).related
  | operator spelling =>
    split
    all_goals first | contradiction | exact .quiet _
  | _ => exact .quiet _

theorem lifted_step : lifting.Rules (step parse) (step wider) := by
  constructor
  intro α rule holds
  cases rule with
  | statements stop => exact lifted_statements rules stop
  | statement => exact (rules.on .connective trivial).bind fun _ => rules.modifiers _
  | modifiers node => exact lifted_modifiers rules node
  | connective => exact (rules.on .negation trivial).bind fun _ => rules.connectiveRest _
  | connectiveRest left => exact lifted_connectiveRest rules left
  | negation => exact lifted_negation rules
  | expression => exact (lifted_expression rules).related (rules.on .choice trivial)
  | choice => exact (lifted_choice rules).related ((lifted_range rules).related (rules.on (.binary 0) trivial))
  | binary least => exact (rules.on .unary trivial).bind fun _ => rules.binaryRest _ _
  | binaryRest least left => exact lifted_binaryRest rules least left
  | unary => exact lifted_unary rules
  | operand => exact (lifted_primary rules).bind fun _ => rules.trailers _
  | trailers base => exact lifted_trailers rules base
  | arguments closer named => exact (lifted_arguments rules closer named).related (lifted_argument rules named)
  | adjacent => exact lifted_adjacent rules
  | code tokens pos => exact lifting.embedded pos holds (rules.on (.statements {}) trivial)
  | pairs => exact lifted_pairs rules
  | blockNames => exact lifted_blockNames rules
  | params parenthesized => exact lifted_params rules parenthesized
  | branch => exact (lifted_branch rules).related
  | whens => exact lifted_whens rules
  | rescues => exact lifted_rescues rules
  | exceptions => exact lifted_exceptions rules
  | targets => exact lifted_targets rules
  | constantNames => exact lifted_constantNames rules

theorem lifted_program : lifting.Related (program parse) (program wider) :=
  (rules.statements _).last

end Lifting

end Formulary.Grammar
