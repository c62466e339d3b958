import Formulary.Grammar
import Formulary.Proofs.Grammar.Constructs
import Formulary.Proofs.Grammar.Expressions

/-! The tree of a list of tokens, up to positions, is that of the tokens up to positions. -/

namespace Formulary.Grammar

variable {f : Position → Position}

section Operands

variable {parse : Rules} (rules : NaturalRules f parse)
include rules

omit rules in
theorem natural_fromNumber {α : Type} (value : Except Text.NumberFault α) :
    Natural f id (fromNumber value) (fromNumber value) := by
  cases value with
  | ok value => exact .pure rfl
  | error fault => exact .throw

theorem natural_keyword (token : Token) (word : String) :
    Natural f (Node.place f) (keyword parse token word) (keyword parse (token.place f) word) := by
  unfold keyword
  rw [Token.pos_place]
  split
  case h_6 | h_7 => exact rules.node .branch rfl
  case h_8 | h_9 => exact natural_loop rules _
  case h_10 => exact natural_forLoop rules
  case h_11 => exact natural_caseOf rules
  case h_12 => exact natural_beginBlock rules
  case h_13 => exact natural_methodDef rules
  case h_14 => exact natural_classDef rules
  case h_15 => exact natural_moduleDef rules
  case h_16 | h_17 | h_18 => exact natural_jump rules _
  case h_19 | h_20 => exact natural_keywordCall rules _
  case h_21 => exact natural_advance.discard.bind fun _ => (rules.node .expression rfl).bind fun _ => .pure rfl
  case h_22 => exact natural_complain
  all_goals exact natural_advance.discard.bind fun _ => .pure rfl

theorem natural_identifier (name : String) (pos : Position) :
    Natural f (Node.place f) (identifier parse name pos) (identifier parse name (f pos)) :=
  (natural_isLocal name).bind fun _ => natural_atCallParen.bind fun _ =>
    .ite (.pure rfl) (natural_callRest rules name none pos)

theorem natural_constant (name : String) (pos : Position) :
    Natural f (Node.place f) (constant parse name pos) (constant parse name (f pos)) :=
  natural_atCallParen.bind fun _ => .ite (natural_callRest rules name none pos) (.pure rfl)

theorem natural_parenthesized (pos : Position) :
    Natural f (Node.place f) (parenthesized parse pos) (parenthesized parse (f pos)) := by
  refine .enclosed ((rules.nodes (.statements _) rfl).bind fun statements => ?_)
  refine (natural_consume (blind_isClosing .round) _).bind fun _ => .pure ?_
  simp [Node.rewrite, Node.rewriteAll_eq]

theorem natural_primary : Natural f (Node.place f) (primary parse) (primary parse) := by
  refine natural_peek.bind fun token => ?_
  dsimp only
  rw [Token.pos_place]
  rw [Token.lexeme_place]
  have read (node : Node) : Natural f (Node.place f) (do discard advance; return node)
      (do discard advance; return node.place f) :=
    natural_advance.discard.bind fun _ => .pure rfl
  have array (elements : List Node) : Node.place f (.array token.pos elements) =
      .array (f token.pos) (placeNodes f elements) := by
    simp [Node.rewrite, Node.rewriteAll_eq]
  cases token.lexeme with
  | integer digits =>
    exact natural_advance.discard.bind fun _ => (natural_fromNumber _).bind fun _ => .pure rfl
  | float digits => exact natural_advance.discard.bind fun _ => (natural_fromNumber _).bind fun _ => .pure rfl
  | string segments => exact natural_advance.discard.bind fun _ => natural_stringLiteral rules token.pos segments
  | shell segments =>
    refine natural_advance.discard.bind fun _ => (natural_pieces rules segments).bind fun pieces => .pure ?_
    simp [Node.rewrite, Node.rewritePieces_eq]
  | regexp source flags => exact read (.regexp token.pos source flags)
  | symbol name => exact read (.symbol token.pos name)
  | words items =>
    have words := read (.array token.pos (items.map fun item => .string token.pos [.text item]))
    rw [array, placeNodes, List.map_map] at words
    exact words
  | symbols items =>
    have symbols := read (.array token.pos (items.map (.symbol token.pos ·)))
    rw [array, placeNodes, List.map_map] at symbols
    exact symbols
  | instanceVar name | globalVar name => exact read (.reference token.pos name)
  | constant name => exact natural_advance.discard.bind fun _ => natural_constant rules name token.pos
  | identifier name => exact natural_advance.discard.bind fun _ => natural_identifier rules name token.pos
  | keyword word => exact natural_keyword rules token word
  | opening bracket =>
    cases bracket with
    | round => exact natural_advance.discard.bind fun _ => natural_parenthesized rules token.pos
    | square =>
      refine natural_advance.discard.bind fun _ => (natural_delimitedArguments rules .square).bind fun elements => ?_
      exact .pure (array elements)
    | curly => exact natural_hash rules
  | doubleColon => exact natural_advance.discard.bind fun _ => (natural_consumeConstant _).bind fun _ => .pure rfl
  | operator spelling =>
    simp only [Lexeme.place]
    split
    case h_18 => exact natural_complain
    all_goals first | contradiction | exact natural_complain
  | _ => exact natural_complain

theorem natural_operand : Natural f (Node.place f) (operand parse) (operand parse) :=
  (natural_primary rules).bind fun node => rules.node (.trailers node) rfl

end Operands

variable {parse : Rules}

theorem naturalRules_step (rules : NaturalRules f parse) : NaturalRules f (step parse) := by
  intro α rule
  cases rule with
  | statements stop => exact natural_statements rules stop
  | statement => exact natural_statement rules
  | modifiers node => exact natural_modifiers rules node
  | connective => exact natural_connective rules
  | connectiveRest left => exact natural_connectiveRest rules left
  | negation => exact natural_negation rules
  | expression => exact natural_expression rules
  | choice => exact natural_choice rules
  | binary least => exact natural_binary rules least
  | binaryRest least left => exact natural_binaryRest rules least left
  | unary => exact natural_unary rules
  | operand => exact natural_operand rules
  | trailers base => exact natural_trailers rules base
  | arguments closer named => exact natural_arguments rules closer named
  | adjacent => exact natural_adjacent rules
  | code tokens pos => exact natural_embedded rules tokens pos
  | pairs => exact natural_pairs rules
  | blockNames => exact natural_blockNames rules
  | params parenthesized => exact natural_params rules parenthesized
  | branch => exact natural_branch rules
  | whens => exact natural_whens rules
  | rescues => exact natural_rescues rules
  | exceptions => exact natural_exceptions rules
  | targets => exact natural_targets rules
  | constantNames => exact natural_constantNames rules

theorem naturalRules_rule (fuel : Nat) : NaturalRules f (rule fuel) := by
  induction fuel with
  | zero =>
    intro α rule
    exact natural_peek.bind fun _ => natural_malformed
  | succ fuel ih => exact naturalRules_step ih

theorem natural_program (rules : NaturalRules f parse) (origin : f .origin = .origin) :
    Natural f (Node.place f) (program parse) (program parse) := by
  refine (rules.nodes (.statements {}) rfl).bind fun statements => (natural_atStop {}).bind fun _ =>
    .ite natural_complain_bind (.pure ?_)
  simp [Node.rewrite, Node.rewriteAll_eq, origin]

theorem start_place (origin : f .origin = .origin) (tokens : List Token) :
    start (tokens.map (Token.place f)) = (start tokens).place f := by
  simp only [start, State.place, List.getLast?_map, List.map_dropLast]
  cases tokens.getLast? with
  | none => simp [Token.place, origin]
  | some final => rfl

theorem enoughFuel_place (tokens : List Token) : enoughFuel (tokens.map (Token.place f)) = enoughFuel tokens := by
  rw [enoughFuel, ← placeTokens_eq, tokensWeight_place, enoughFuel]

/-- Positions that are mapped in the tokens are mapped in the tree. -/
theorem ofTokens_place (origin : f .origin = .origin) (tokens : List Token) :
    (ofTokens (tokens.map (Token.place f))).toOption = (ofTokens tokens).toOption.map (Node.place f) := by
  have read := natural_program (naturalRules_rule (enoughFuel tokens)) origin (start tokens)
  rw [ofTokens, ofTokens, enoughFuel_place, start_place origin]
  cases before : (program (rule (enoughFuel tokens))).run (start tokens) <;>
    cases after : (program (rule (enoughFuel tokens))).run ((start tokens).place f) <;>
    simp_all [Except.toOption, Except.map]

end Formulary.Grammar

namespace Formulary

/-- The tree of a text, up to positions, hangs on its tokens up to positions. -/
theorem parseRecipe_unplaced (source : List Char) : (parseRecipe source).toOption.map (Node.place nowhere) =
    ((tokenize source .origin).toOption.map unplaced).bind fun tokens => (Grammar.ofTokens tokens).toOption := by
  unfold parseRecipe
  cases tokenize source .origin with
  | ok tokens => exact (Grammar.ofTokens_place rfl tokens).symm
  | error error => rfl

end Formulary
