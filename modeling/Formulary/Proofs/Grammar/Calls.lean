import Formulary.Grammar.Literal
import Formulary.Proofs.Grammar.Natural

/-! Calls with their arguments and blocks, strings and hashes are read alike wherever they stand. -/

namespace Formulary.Grammar

variable {f : Position → Position} {parse : Rules} (rules : NaturalRules f parse)
include rules

/-- The positions of an argument, which is positional or a pair. -/
abbrev placeItem (f : Position → Position) : Sum Node (Node × Node) → Sum Node (Node × Node) :=
  Sum.map (Node.place f) (Prod.map (Node.place f) (Node.place f))

theorem natural_argument (named : Bool) :
    Natural f (placeItem f) (argument parse named) (argument parse named) := by
  refine natural_peek.bind fun token => ?_
  rw [Token.lexeme_place, Token.pos_place]
  have plain : Natural f (placeItem f)
      (do let value ← parse .expression
          if ← check Lexeme.isArrow then
            discard advance
            skipNewlines
            return .inr (value, ← parse .expression)
          else if named then complain .positionalAfterPairs
          else return .inl value)
      (do let value ← parse .expression
          if ← check Lexeme.isArrow then
            discard advance
            skipNewlines
            return .inr (value, ← parse .expression)
          else if named then complain .positionalAfterPairs
          else return .inl value) := by
    refine (rules.node .expression rfl).bind fun value => (natural_check blind_isArrow).bind fun _ => .ite ?_ ?_
    · exact natural_advance.discard.bind fun _ => natural_skipNewlines.bind fun _ =>
        (rules.node .expression rfl).bind fun _ => .pure rfl
    · exact .ite natural_complain (.pure rfl)
  cases token.lexeme with
  | label name =>
    exact natural_advance.discard.bind fun _ => natural_skipNewlines.bind fun _ =>
      (rules.node .expression rfl).bind fun _ => .pure rfl
  | operator spelling =>
    simp only [Lexeme.place]
    split
    · contradiction
    · exact natural_advance.discard.bind fun _ => (rules.node .expression rfl).bind fun _ => .pure rfl
    · exact natural_advance.discard.bind fun _ => (rules.node .expression rfl).bind fun _ => .pure rfl
    · exact natural_advance.discard.bind fun _ => (rules.node .expression rfl).bind fun _ => .pure rfl
    · exact plain
  | _ => exact plain

omit rules in
theorem natural_atCloser (closer : Option Bracket) : Natural f id (atCloser closer) (atCloser closer) := by
  cases closer with
  | none => exact .pure rfl
  | some bracket => exact natural_check (blind_isClosing bracket)

theorem natural_arguments (closer : Option Bracket) (named : Bool) :
    Natural f (Prod.map (placeNodes f) (placePairs f)) (arguments parse closer named)
      (arguments parse closer named) := by
  refine (natural_argument rules named).bind fun item => (natural_check blind_isComma).bind fun goOn => ?_
  cases item with
  | inl arg =>
    refine .ite (natural_advance.discard.bind fun _ => natural_skipNewlines.bind fun _ => ?_) ?_
    all_goals
      refine (natural_atCloser closer).bind fun _ => .ite (.pure rfl) ?_
      exact (rules.arguments closer _).bind fun _ => .pure rfl
  | inr pair =>
    refine .ite (natural_advance.discard.bind fun _ => natural_skipNewlines.bind fun _ => ?_) ?_
    all_goals
      refine (natural_atCloser closer).bind fun _ => .ite (.pure rfl) ?_
      exact (rules.arguments closer _).bind fun _ => .pure rfl

theorem natural_argumentList (closer : Option Bracket) :
    Natural f (placeNodes f) (argumentList parse closer) (argumentList parse closer) := by
  refine (rules.arguments closer false).bind fun found => ?_
  obtain ⟨args, pairs⟩ := found
  cases pairs with
  | nil => exact .pure rfl
  | cons pair rest =>
    refine .pure ?_
    simp [placeNodes, placePairs, Node.rewrite, Node.rewritePairs_eq, Node.pos_place]

theorem natural_commandArguments : Natural f (placeNodes f) (commandArguments parse) (commandArguments parse) :=
  (natural_argumentList rules none).leavingDo

theorem natural_delimitedArguments (closer : Bracket) :
    Natural f (placeNodes f) (delimitedArguments parse closer) (delimitedArguments parse closer) := by
  refine Natural.enclosed (natural_skipNewlines.bind fun _ => (natural_check (blind_isClosing closer)).bind fun _ =>
    .ite (natural_advance.discard.bind fun _ => .pure rfl) ?_)
  exact (natural_argumentList rules (some closer)).bind fun args => natural_skipNewlines.bind fun _ =>
    (natural_consume (blind_isClosing closer) _).bind fun _ => .pure rfl

/-! Blocks -/

theorem natural_blockNames : Natural f id (blockNames parse) (blockNames parse) := by
  refine (natural_check (blind_isOperator "|")).bind fun _ =>
    .ite (natural_advance.discard.bind fun _ => .pure rfl) (natural_advance.bind fun token => ?_)
  rw [Token.lexeme_place]
  have more (name : String) : Natural f id (do return name :: (← parse .blockNames))
      (do return name :: (← parse .blockNames)) :=
    (rules.names .blockNames rfl).bind fun _ => .pure rfl
  cases token.lexeme with
  | identifier name | label name => exact more name
  | operator op =>
    refine natural_peek.bind fun next => ?_
    rw [Token.lexeme_place]
    cases next.lexeme with
    | identifier name => exact .ite (natural_advance.discard.bind fun _ => more name) natural_complainAt
    | _ => exact natural_complainAt
  | comma => exact rules.names .blockNames rfl
  | opening bracket | closing bracket =>
    cases bracket with
    | round => exact rules.names .blockNames rfl
    | _ => exact natural_complainAt
  | _ => exact natural_complainAt

theorem natural_blockParams : Natural f id (blockParams parse) (blockParams parse) := by
  refine natural_peek.bind fun token => ?_
  rw [Token.lexeme_place, blind_operator?]
  generalize token.lexeme.operator? = op
  split
  · exact natural_advance.discard.bind fun _ => .pure rfl
  · exact natural_advance.discard.bind fun _ => (rules.names .blockNames rfl).bind fun names =>
      (Natural.forM natural_declare names).bind fun _ => .pure rfl
  · exact .pure rfl

theorem natural_body (start : Position) :
    Natural f (placeNodes f) (body parse start) (body parse (f start)) := by
  refine (rules.nodes (.statements _) rfl).bind fun statements => (rules.nodes .rescues rfl).bind fun rescues => ?_
  have finish (elseBody ensureBody : List Node) : Natural f (placeNodes f)
      (if rescues.isEmpty && ensureBody.isEmpty then pure statements
        else pure [.guarded start statements rescues elseBody ensureBody])
      (if rescues.isEmpty && (placeNodes f ensureBody).isEmpty then pure (placeNodes f statements)
        else pure [.guarded (f start) (placeNodes f statements) (placeNodes f rescues) (placeNodes f elseBody)
          (placeNodes f ensureBody)]) := by
    rw [List.isEmpty_map]
    refine .ite (.pure rfl) (.pure ?_)
    simp [Node.rewrite, Node.rewriteAll_eq]
  rw [List.isEmpty_map]
  refine (natural_checkWord "else").bind fun _ =>
    .ite (natural_advance.discard.bind fun _ => (rules.nodes (.statements _) rfl).bind fun elseBody => ?_) ?_
  · exact (natural_checkWord "ensure").bind fun _ => .ite (natural_advance.discard.bind fun _ =>
      (rules.nodes (.statements _) rfl).bind fun ensureBody => finish elseBody ensureBody) (finish elseBody [])
  · exact (natural_checkWord "ensure").bind fun _ => .ite (natural_advance.discard.bind fun _ =>
      (rules.nodes (.statements _) rfl).bind fun ensureBody => finish [] ensureBody) (finish [] [])

omit rules in
theorem blind_endsExceptions : Blind f endsExceptions :=
  blind_of_strings (fun _ => rfl) fun _ => rfl

theorem natural_exceptions : Natural f (placeNodes f) (exceptions parse) (exceptions parse) := by
  refine (natural_check blind_endsExceptions).bind fun _ => .ite (.pure rfl) ?_
  refine (rules.node .choice rfl).bind fun first => (natural_check blind_isComma).bind fun _ => .ite ?_ (.pure rfl)
  exact natural_advance.discard.bind fun _ => (rules.nodes .exceptions rfl).bind fun _ => .pure rfl

theorem natural_rescueClause : Natural f (Node.place f) (rescueClause parse) (rescueClause parse) := by
  refine natural_advance.bind fun start => (rules.nodes .exceptions rfl).bind fun classes => ?_
  rw [Token.pos_place]
  have finish (binder : Option String) : Natural f (Node.place f)
      (do skipWord "then"; return .rescueClause start.pos classes binder (← parse (.statements ⟨bodyWords, none⟩)))
      (do skipWord "then"
          return .rescueClause (f start.pos) (placeNodes f classes) binder
            (← parse (.statements ⟨bodyWords, none⟩))) := by
    refine (natural_skipWord "then").bind fun _ => (rules.nodes (.statements _) rfl).bind fun statements => .pure ?_
    simp [Node.rewrite, Node.rewriteAll_eq]
  refine (natural_check blind_isArrow).bind fun _ => .ite ?_ (finish none)
  exact natural_advance.discard.bind fun _ => (natural_consumeIdentifier _).bind fun name =>
    (natural_declare name).bind fun _ => finish (some name)

theorem natural_rescues : Natural f (placeNodes f) (rescues parse) (rescues parse) :=
  (natural_checkWord "rescue").bind fun _ => .ite
    ((natural_rescueClause rules).bind fun _ => (rules.nodes .rescues rfl).bind fun _ => .pure rfl) (.pure rfl)

theorem natural_braceBlock : Natural f (Node.place f) (braceBlock parse) (braceBlock parse) := by
  refine natural_advance.bind fun start => ?_
  rw [Token.pos_place]
  refine .inScope false (.enclosed ((natural_blockParams rules).bind fun params => ?_))
  refine (rules.nodes (.statements _) rfl).bind fun statements => (natural_consume (blind_isClosing .curly) _).bind fun _ =>
    .pure ?_
  simp [Node.rewrite, Node.rewriteAll_eq]

theorem natural_doBlock : Natural f (Node.place f) (doBlock parse) (doBlock parse) := by
  refine natural_advance.bind fun start => ?_
  rw [Token.pos_place]
  refine .inScope false (.enclosed ((natural_blockParams rules).bind fun params => ?_))
  refine (natural_body rules start.pos).bind fun statements => (natural_consumeWord "end").bind fun _ => .pure ?_
  simp [Node.rewrite, Node.rewriteAll_eq]

theorem natural_blockOption :
    Natural f (Option.map (Node.place f)) (blockOption parse) (blockOption parse) := by
  refine natural_peek.bind fun token => ?_
  rw [Token.lexeme_place]
  dsimp only
  rw [blind_isOpening Bracket.curly, blind_isKeyword "do"]
  refine .ite ((natural_braceBlock rules).bind fun _ => .pure rfl) (Natural.get.bind fun state => .ite ?_ (.pure rfl))
  exact (natural_doBlock rules).bind fun _ => .pure rfl

/-! Calls -/

theorem natural_callRest (name : String) (receiver : Option Node) (pos : Position) :
    Natural f (Node.place f) (callRest parse name receiver pos)
      (callRest parse name (receiver.map (Node.place f)) (f pos)) := by
  refine natural_atCallParen.bind fun parens => natural_atArgument.bind fun _ => ?_
  have finish (args : List Node) : Natural f (Node.place f)
      (do return .call pos name receiver args (← blockOption parse) parens)
      (do return .call (f pos) name (receiver.map (Node.place f)) (placeNodes f args) (← blockOption parse) parens) := by
    refine (natural_blockOption rules).bind fun block => .pure ?_
    simp [Node.rewrite, Node.rewriteAll_eq, Node.rewriteOption_eq]
  refine .ite ?_ (.ite ?_ (finish []))
  · exact natural_advance.discard.bind fun _ => (natural_delimitedArguments rules .round).bind fun args => finish args
  · exact (natural_commandArguments rules).bind fun args => finish args

omit rules in
theorem blind_methodName? : Blind f methodName? :=
  blind_of_strings (fun _ => rfl) fun _ => rfl

theorem natural_colonTrailer (base : Node) :
    Natural f (Node.place f) (colonTrailer parse base) (colonTrailer parse (base.place f)) := by
  refine natural_advance.bind fun token => natural_atCallParen.bind fun called => ?_
  rw [Token.lexeme_place, Node.pos_place]
  cases token.lexeme with
  | constant name => exact .ite (natural_callRest rules name (some base) base.pos) (.pure rfl)
  | identifier name => exact natural_callRest rules name (some base) base.pos
  | _ => exact natural_complainAt

theorem natural_trailers (base : Node) :
    Natural f (Node.place f) (trailers parse base) (trailers parse (base.place f)) := by
  refine natural_peek.bind fun token => ?_
  rw [Token.lexeme_place, Token.spaced_place, Node.pos_place]
  have blind_isDot : Blind f Lexeme.isDot := blind_of_strings (fun _ => rfl) fun _ => rfl
  have blind_isDoubleColon : Blind f Lexeme.isDoubleColon := blind_of_strings (fun _ => rfl) fun _ => rfl
  rw [blind_isDot, blind_isDoubleColon, blind_isOpening Bracket.square]
  refine .ite ?_ (.ite ?_ (.ite ?_ (.pure rfl)))
  · refine natural_advance.discard.bind fun _ => natural_skipNewlines.bind fun _ => natural_advance.bind fun name => ?_
    rw [Token.lexeme_place, blind_methodName?]
    cases methodName? name.lexeme with
    | none => exact natural_complainAt
    | some word =>
      exact (natural_callRest rules word (some base) base.pos).bind fun node => rules.node (.trailers node) rfl
  · exact natural_advance.discard.bind fun _ => (natural_colonTrailer rules base).bind fun node =>
      rules.node (.trailers node) rfl
  · refine natural_advance.discard.bind fun _ => (natural_delimitedArguments rules .square).bind fun args => ?_
    have index : Node.place f (.index base.pos base args) = .index (f base.pos) (base.place f) (placeNodes f args) := by
      simp [Node.rewrite, Node.rewriteAll_eq]
    rw [← index]
    exact rules.node (.trailers (.index base.pos base args)) rfl

/-! Strings and hashes -/

theorem natural_embedded (tokens : List Token) (pos : Position) :
    Natural f (Piece.place f) (embedded parse tokens pos)
      (embedded parse (tokens.map (Token.place f)) (f pos)) := by
  refine Natural.get.bind fun outer => ?_
  have inner : { outer.place f with
        ahead := (tokens.map (Token.place f)).dropLast
        final := (tokens.map (Token.place f)).getLast?.getD ⟨.endOfText, f pos, true⟩
        barred := 0 } =
      State.place f { outer with
        ahead := tokens.dropLast
        final := tokens.getLast?.getD ⟨.endOfText, pos, true⟩
        barred := 0 } := by
    rw [List.getLast?_map, ← List.map_dropLast]
    cases tokens.getLast? <;> rfl
  dsimp only
  rw [inner]
  refine (Natural.set _).bind fun _ => (rules.nodes (.statements {}) rfl).bind fun statements => ?_
  refine (natural_atStop {}).bind fun stopped => .ite natural_complain_bind ?_
  refine Natural.bind (.modify ?_) fun _ => .pure rfl
  exact fun _ => rfl

omit rules in
theorem joinTexts_place (pieces : List (Piece Node)) :
    joinTexts (pieces.map (Piece.place f)) = (joinTexts pieces).map (Piece.place f) := by
  induction pieces with
  | nil => rfl
  | cons piece rest ih =>
    cases piece with
    | code pos body => simp only [List.map_cons, Piece.rewrite, joinTexts, ih, id_eq]
    | text value =>
      simp only [List.map_cons, Piece.rewrite, joinTexts, ih, id_eq]
      split
      · rfl
      · cases joinTexts rest with
        | nil => rfl
        | cons next others => cases next <;> rfl

omit rules in
theorem normalPieces_place (pieces : List (Piece Node)) :
    normalPieces (pieces.map (Piece.place f)) = (normalPieces pieces).map (Piece.place f) := by
  unfold normalPieces
  rw [joinTexts_place, List.isEmpty_map]
  split <;> simp [List.map_take]

theorem natural_pieces (segments : List (Segment Token)) :
    Natural f (List.map (Piece.place f)) (pieces parse segments) (pieces parse (segments.map (placeSegment f))) := by
  refine Natural.mapM (fun segment => ?_) segments
  cases segment with
  | text value => exact .pure rfl
  | code tokens pos =>
    rw [placeSegment, placeTokens_eq]
    exact rules.code tokens pos

theorem natural_adjacent : Natural f (List.map (Piece.place f)) (adjacent parse) (adjacent parse) := by
  refine natural_peek.bind fun token => ?_
  rw [Token.lexeme_place, Token.spaced_place]
  cases token.lexeme with
  | string segments =>
    refine .ite (natural_advance.discard.bind fun _ => (natural_pieces rules segments).bind fun first => ?_) (.pure rfl)
    exact (rules.adjacent).bind fun more => .pure List.map_append
  | _ => exact .pure rfl

theorem natural_stringLiteral (pos : Position) (segments : List (Segment Token)) :
    Natural f (Node.place f) (stringLiteral parse pos segments)
      (stringLiteral parse (f pos) (segments.map (placeSegment f))) := by
  refine (natural_pieces rules segments).bind fun first => (rules.adjacent).bind fun more => .pure ?_
  simp only [Node.place, Node.rewrite, Node.rewritePieces_eq]
  rw [← List.map_append, normalPieces_place]
  rfl

theorem natural_hashKey : Natural f (Node.place f) (hashKey parse) (hashKey parse) := by
  refine natural_peek.bind fun token => ?_
  rw [Token.lexeme_place, Token.pos_place]
  have key : Natural f (Node.place f)
      (do let key ← parse .expression
          skipNewlines
          consume Lexeme.isArrow .expectedArrow
          skipNewlines
          return key)
      (do let key ← parse .expression
          skipNewlines
          consume Lexeme.isArrow .expectedArrow
          skipNewlines
          return key) :=
    (rules.node .expression rfl).bind fun key => natural_skipNewlines.bind fun _ =>
      (natural_consume blind_isArrow _).bind fun _ => natural_skipNewlines.bind fun _ => .pure rfl
  cases token.lexeme with
  | label name => exact natural_advance.discard.bind fun _ => natural_skipNewlines.bind fun _ => .pure rfl
  | _ => exact key

theorem natural_pairs : Natural f (placePairs f) (pairs parse) (pairs parse) := by
  refine (natural_check (blind_isClosing .curly)).bind fun _ => .ite (.pure rfl) ?_
  refine (natural_hashKey rules).bind fun key => (rules.node .expression rfl).bind fun value => ?_
  refine natural_skipNewlines.bind fun _ => (natural_check blind_isComma).bind fun _ => .ite ?_ (.pure rfl)
  exact natural_advance.discard.bind fun _ => natural_skipNewlines.bind fun _ =>
    (rules.pairs).bind fun _ => .pure rfl

theorem natural_hash : Natural f (Node.place f) (hash parse) (hash parse) := by
  refine natural_advance.bind fun start => ?_
  rw [Token.pos_place]
  refine .enclosed (natural_skipNewlines.bind fun _ => (rules.pairs).bind fun found => ?_)
  refine (natural_consume (blind_isClosing .curly) _).bind fun _ => .pure ?_
  simp [Node.rewrite, Node.rewritePairs_eq]

end Formulary.Grammar
