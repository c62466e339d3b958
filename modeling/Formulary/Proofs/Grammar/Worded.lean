import Formulary.Proofs.Grammar.Ensures

/-!
The names in the tree of a recipe are those of its tokens, and its strings are in normal form. Each construct of the
grammar ensures this if the rules that it applies do, so all rules ensure it, by induction on how deep they may call one
another.
-/

namespace Formulary.Grammar

namespace NamedRules

variable {parse : Rules} (rules : NamedRules parse)
include rules

theorem statements (stop : Stop) : Ensures (parse (.statements stop)) AllNamed :=
  rules.on (.statements stop) trivial

theorem connective : Ensures (parse .connective) Node.Named :=
  rules.on .connective trivial

theorem negation : Ensures (parse .negation) Node.Named :=
  rules.on .negation trivial

theorem expression : Ensures (parse .expression) Node.Named :=
  rules.on .expression trivial

theorem choice : Ensures (parse .choice) Node.Named :=
  rules.on .choice trivial

theorem binary (least : Nat) : Ensures (parse (.binary least)) Node.Named :=
  rules.on (.binary least) trivial

theorem unary : Ensures (parse .unary) Node.Named :=
  rules.on .unary trivial

theorem operand : Ensures (parse .operand) Node.Named :=
  rules.on .operand trivial

theorem modifiers {node : Node} (h : node.Named) : Ensures (parse (.modifiers node)) Node.Named :=
  rules.on (.modifiers node) h

theorem connectiveRest {left : Node} (h : left.Named) : Ensures (parse (.connectiveRest left)) Node.Named :=
  rules.on (.connectiveRest left) h

theorem binaryRest {least : Nat} {left : Node} (h : left.Named) : Ensures (parse (.binaryRest least left)) Node.Named :=
  rules.on (.binaryRest least left) h

theorem trailers {base : Node} (h : base.Named) : Ensures (parse (.trailers base)) Node.Named :=
  rules.on (.trailers base) h

theorem branch : Ensures (parse .branch) Node.Named :=
  rules.on .branch trivial

theorem arguments (closer : Option Bracket) (named : Bool) :
    Ensures (parse (.arguments closer named)) fun found => AllNamed found.1 ∧ PairsNamed found.2 :=
  rules.on (.arguments closer named) trivial

end NamedRules

theorem worded_not (pos : Position) (operand : Node) : (Node.unary pos "not" operand).Worded := by
  simp [Node.Worded, signWords]

theorem ensures_assignable {node : Node} (h : node.Named) (token : Token) :
    Ensures (assignable node token) Node.Named := by
  unfold assignable
  split
  · exact .ite .complainAt (.ite (.after fun _ => .pure h) (.pure h))
  -- a bare name was read as a call, and a call's name is a word
  · exact .after fun _ => .pure (.of (.inl h.here) .nil)
  · exact .pure h
  · exact .pure h
  · exact .pure h
  · exact .complainAt

variable {parse : Rules} (rules : NamedRules parse)
include rules

/-! Statements and operators -/

theorem ensures_statements (stop : Stop) : Ensures (statements parse stop) AllNamed := by
  refine .after fun _ => .after fun _ => .ite (.pure .nil) ?_
  refine (rules.on .statement trivial).bind fun first made => ?_
  have more : Ensures (do return first :: (← parse (.statements stop))) AllNamed :=
    (rules.statements stop).bind fun _ others => .pure (.cons made others)
  exact .after fun _ => .after fun _ => .ite (.after fun _ => more) more

theorem ensures_modifiers {node : Node} (h : node.Named) : Ensures (modifiers parse node) Node.Named := by
  refine .after fun token => ?_
  dsimp only
  split
  case h_6 => exact .pure h
  case h_1 | h_2 | h_3 | h_4 =>
    exact .after fun _ => rules.connective.bind fun cond made =>
      rules.modifiers (.of trivial (.cons made (.one h)))
  case h_5 =>
    exact .after fun _ => rules.connective.bind fun rescue made =>
      rules.modifiers (.of trivial (.cons h (.one made)))

theorem ensures_connectiveRest {left : Node} (h : left.Named) : Ensures (connectiveRest parse left) Node.Named := by
  refine .after fun token => ?_
  cases token.lexeme.keyword? with
  | none => exact .pure h
  | some word =>
    dsimp only
    split
    · rename_i known
      exact .after fun _ => .after fun _ => rules.negation.bind fun right made =>
        rules.connectiveRest (.of (.inr known) (.cons h (.one made)))
    · exact .pure h

theorem ensures_negation : Ensures (negation parse) Node.Named :=
  .after fun _ => .ite
    (.after fun _ => rules.negation.bind fun _ made => .pure (.of (worded_not _ _) (.one made))) rules.expression

theorem ensures_expression : Ensures (expression parse) Node.Named := by
  refine rules.choice.bind fun target made => .after fun token => ?_
  cases token.lexeme.operator? with
  | none => exact .pure made
  | some op =>
    refine .ite ?_ (.ite ?_ (.pure made))
    · exact (ensures_assignable made token).bind fun _ kept => .after fun _ => .after fun _ =>
        rules.expression.bind fun _ value => .pure (.of trivial (.cons kept (.one value)))
    · exact (ensures_assignable made token).bind fun _ kept => .after fun _ => .after fun _ =>
        rules.expression.bind fun _ value => .pure (.of trivial (.cons kept (.one value)))

theorem ensures_range : Ensures (range parse) Node.Named := by
  refine (rules.binary 0).bind fun low made => .after fun token =>
    .ite (.after fun _ => .after fun _ => ?_) (.pure made)
  exact .ite (Ensures.none.bind fun _ bound => .pure (.of trivial (.cons made bound)))
    ((rules.binary 0).some.bind fun _ bound => .pure (.of trivial (.cons made bound)))

theorem ensures_choice : Ensures (choice parse) Node.Named := by
  refine (ensures_range rules).bind fun cond made => .after fun _ =>
    .ite (.after fun _ => .after fun _ => ?_) (.pure made)
  exact rules.choice.bind fun _ first => .after fun _ => .after fun _ => .after fun _ =>
    rules.choice.bind fun _ second => .pure (.of trivial (.cons made (.cons first (.one second))))

theorem ensures_binaryRest {least : Nat} {left : Node} (h : left.Named) :
    Ensures (binaryRest parse least left) Node.Named := by
  refine .after fun token => ?_
  cases token.lexeme.operator? with
  | none => exact .pure h
  | some op =>
    dsimp only
    cases known : precedence? op with
    | none => exact .pure h
    | some precedence =>
      refine .ite (.pure h) (.after fun _ => .after fun _ => (rules.binary _).bind fun right made => ?_)
      exact rules.binaryRest (.of (.inl (by rw [known]; rfl)) (.cons h (.one made)))

omit rules in
theorem named_signed {sign : String} {node : Node} (pos : Position) (known : sign ∈ signWords)
    (h : node.Named) : (signed pos sign node).Named := by
  unfold signed
  split
  case h_5 => exact .of known (.one h)
  all_goals exact .of trivial .nil

theorem ensures_unary : Ensures (unary parse) Node.Named := by
  refine .after fun token => ?_
  cases token.lexeme.operator? with
  | none => exact rules.operand
  | some op =>
    dsimp only
    split
    · rename_i known
      have sign : op ∈ signWords := by obtain rfl | rfl := known <;> decide
      exact .after fun _ => rules.unary.bind fun _ made => .pure (.of sign (.one made))
    split
    · rename_i known
      have sign : op ∈ signWords := by obtain rfl | rfl := known <;> decide
      refine .after fun _ => .after fun _ => .ite ?_ ?_
      · exact rules.operand.bind fun _ made => .pure (named_signed _ sign made)
      · exact rules.unary.bind fun _ made => .pure (.of sign (.one made))
    · exact rules.operand

/-! Calls -/

theorem ensures_argument (named : Bool) : Ensures (argument parse named) ItemNamed := by
  refine .after fun token => ?_
  have plain : Ensures
      (do let value ← parse .expression
          if ← check Lexeme.isArrow then
            discard advance
            skipNewlines
            return Sum.inr (value, ← parse .expression)
          else if named then complain .positionalAfterPairs
          else return Sum.inl value) ItemNamed := by
    refine rules.expression.bind fun _ made => .after fun _ => .ite ?_ (.ite .complain (.pure made))
    exact .after fun _ => .after fun _ => rules.expression.bind fun _ value => .pure ⟨made, value⟩
  cases token.lexeme with
  | label name =>
    exact .after fun _ => .after fun _ => rules.expression.bind fun _ value => .pure ⟨.of trivial .nil, value⟩
  | operator spelling =>
    split
    · contradiction
    · exact .after fun _ => rules.expression.bind fun _ made => .pure (.of trivial (.one made))
    · exact .after fun _ => rules.expression.bind fun _ made => .pure (.of trivial (.one made))
    · exact .after fun _ => rules.expression.bind fun _ made => .pure (.of trivial (.one made))
    · exact plain
  | _ => exact plain

theorem ensures_arguments (closer : Option Bracket) (named : Bool) :
    Ensures (arguments parse closer named) fun found => AllNamed found.1 ∧ PairsNamed found.2 := by
  refine (ensures_argument rules named).bind fun item made => .after fun goOn => ?_
  have none : Ensures (pure ([], [])) fun found : List Node × List (Node × Node) =>
      AllNamed found.1 ∧ PairsNamed found.2 :=
    .pure ⟨.nil, .nil⟩
  cases item with
  | inl arg =>
    refine .ite (.after fun _ => .after fun _ => ?_) ?_
    all_goals
      refine .after fun _ => .ite (none.bind fun _ others => ?_) ((rules.arguments closer _).bind fun _ others => ?_)
      all_goals exact .pure ⟨.cons made others.1, others.2⟩
  | inr pair =>
    refine .ite (.after fun _ => .after fun _ => ?_) ?_
    all_goals
      refine .after fun _ => .ite (none.bind fun _ others => ?_) ((rules.arguments closer _).bind fun _ others => ?_)
      all_goals exact .pure ⟨others.1, .cons made others.2⟩

omit rules in
theorem allNamed_pairs {pairs : List (Node × Node)} (h : PairsNamed pairs) :
    AllNamed (pairs.flatMap fun pair => [pair.1, pair.2]) := by
  intro node mem
  obtain ⟨pair, among, side⟩ := List.mem_flatMap.1 mem
  obtain ⟨key, value⟩ := h pair among
  obtain rfl | other := List.mem_cons.1 side
  · exact key
  · exact List.mem_singleton.1 other ▸ value

theorem ensures_argumentList (closer : Option Bracket) : Ensures (argumentList parse closer) AllNamed := by
  refine (rules.arguments closer false).bind fun found made => ?_
  obtain ⟨args, pairs⟩ := found
  cases pairs with
  | nil => exact .pure made.1
  | cons pair rest => exact .pure (.append made.1 (.one (.of trivial (allNamed_pairs made.2))))

theorem ensures_delimitedArguments (closer : Bracket) : Ensures (delimitedArguments parse closer) AllNamed := by
  refine .enclosed (.after fun _ => .after fun _ => .ite (.after fun _ => .pure .nil) ?_)
  exact (ensures_argumentList rules (some closer)).bind fun _ made => .after fun _ => .after fun _ => .pure made

theorem ensures_body (start : Position) : Ensures (body parse start) AllNamed := by
  refine (rules.statements _).bind fun statements made => (rules.on .rescues trivial).bind fun rescues saved => ?_
  have close {elseBody : List Node} (other : AllNamed elseBody) : Ensures (do
      let mut ensureBody := []
      if ← checkWord "ensure" then
        discard advance
        ensureBody ← parse (.statements ⟨["end"], none⟩)
      if rescues.isEmpty && ensureBody.isEmpty then return statements
      else return [.guarded start statements rescues elseBody ensureBody]) AllNamed := by
    refine .after fun _ => .ite (.after fun _ => (rules.statements _).bind fun _ last => ?_) ?_
    · exact .ite (.pure made) (.pure (.one (.of trivial (.append (.append (.append made saved) other) last))))
    · exact .ite (.pure made) (.pure (.one (.of trivial (.append (.append (.append made saved) other) .nil))))
  exact .after fun _ => .ite (.after fun _ => (rules.statements _).bind fun _ other => close other) (close .nil)

theorem ensures_exceptions : Ensures (exceptions parse) AllNamed := by
  refine .after fun _ => .ite (.pure .nil) ?_
  refine rules.choice.bind fun _ first => .after fun _ => .ite ?_ (.pure (.one first))
  exact .after fun _ => (rules.on .exceptions trivial).bind fun _ others => .pure (.cons first others)

theorem ensures_rescueClause : Ensures (rescueClause parse) Node.Named := by
  refine .after fun token => (rules.on .exceptions trivial).bind fun classes made => ?_
  refine .after fun _ => .ite ?_ ?_
  · exact .after fun _ => .after fun _ => .after fun _ => .after fun _ =>
      (rules.statements _).bind fun _ body => .pure (.of trivial (.append made body))
  · exact .after fun _ => (rules.statements _).bind fun _ body => .pure (.of trivial (.append made body))

theorem ensures_rescues : Ensures (rescues parse) AllNamed := by
  refine .after fun _ => .ite ((ensures_rescueClause rules).bind fun _ first => ?_) (.pure .nil)
  exact (rules.on .rescues trivial).bind fun _ others => .pure (.cons first others)

theorem ensures_blockParams : Ensures (blockParams parse) fun _ => True := by
  refine .after fun token => ?_
  generalize token.lexeme.operator? = op
  split
  · exact .quiet _
  · exact .after fun _ => (rules.on .blockNames trivial).bind fun _ _ => .quiet _
  · exact .quiet _

theorem ensures_braceBlock : Ensures (braceBlock parse) Node.Named := by
  refine .after fun _ => .inScope (.enclosed ((ensures_blockParams rules).bind fun _ _ => ?_))
  exact (rules.statements _).bind fun _ made => .after fun _ => .pure (.of trivial made)

theorem ensures_doBlock : Ensures (doBlock parse) Node.Named := by
  refine .after fun token => .inScope (.enclosed ((ensures_blockParams rules).bind fun _ _ => ?_))
  exact (ensures_body rules token.pos).bind fun _ made => .after fun _ => .pure (.of trivial made)

theorem ensures_blockOption : Ensures (blockOption parse) fun found => AllNamed found.toList := by
  refine .after fun _ => .ite ?_ (.after fun _ => .ite ?_ (.pure .nil))
  · exact (ensures_braceBlock rules).bind fun _ made => .pure (.one made)
  · exact (ensures_doBlock rules).bind fun _ made => .pure (.one made)

theorem ensures_callRest {name : String} {receiver : Option Node} (word : IsWord name)
    (h : AllNamed receiver.toList) (pos : Position) : Ensures (callRest parse name receiver pos) Node.Named := by
  have close {args : List Node} (parens : Bool) (made : AllNamed args) :
      Ensures (do return .call pos name receiver args (← blockOption parse) parens) Node.Named :=
    (ensures_blockOption rules).bind fun _ block => .pure (.of word (.append (.append h made) block))
  refine .after fun parens => .after fun _ => .ite (.after fun _ => ?_) (.ite ?_ ?_)
  · exact (ensures_delimitedArguments rules .round).bind fun _ made => close parens made
  · exact (ensures_argumentList rules none).leavingDo.bind fun _ made => close parens made
  · exact (Ensures.pure (Throughout.nil : AllNamed [])).bind fun _ made => close parens made

omit rules in
theorem isWord_of_methodName? {token : Token} {name : String} (worded : token.Worded)
    (known : methodName? token.lexeme = some name) : IsWord name := by
  have spelled := worded.lexeme
  unfold methodName? at known
  split at known
  case h_4 => contradiction
  all_goals
    rename_i lexeme
    rw [lexeme] at spelled
    exact Option.some.inj known ▸ spelled

theorem ensures_colonTrailer {base : Node} (h : base.Named) : Ensures (colonTrailer parse base) Node.Named := by
  have on : AllNamed (some base).toList := .one h
  refine Ensures.read.bind fun token worded => .after fun called => ?_
  have spelled := worded.lexeme
  cases lexeme : token.lexeme with
  | constant name =>
    rw [lexeme] at spelled
    exact .ite (ensures_callRest rules spelled on base.pos) (.pure (.of trivial (.one h)))
  | identifier name =>
    rw [lexeme] at spelled
    exact ensures_callRest rules spelled on base.pos
  | _ => exact .complainAt

theorem ensures_trailers {base : Node} (h : base.Named) : Ensures (trailers parse base) Node.Named := by
  have on : AllNamed (some base).toList := .one h
  refine .after fun token => .ite (.after fun _ => .after fun _ => ?_) (.ite ?_ (.ite ?_ (.pure h)))
  · refine Ensures.read.bind fun name worded => ?_
    cases known : methodName? name.lexeme with
    | none => exact .complainAt
    | some word =>
      exact (ensures_callRest rules (isWord_of_methodName? worded known) on base.pos).bind fun _ made =>
        rules.trailers made
  · exact .after fun _ => (ensures_colonTrailer rules h).bind fun _ made => rules.trailers made
  · exact .after fun _ => (ensures_delimitedArguments rules .square).bind fun _ made =>
      rules.trailers (.of trivial (.cons h made))

/-! Literals -/

omit rules in
theorem piecesNamed_append {first rest : List (Piece Node)} (h : PiecesNamed first) (h' : PiecesNamed rest) :
    PiecesNamed (first ++ rest) := by
  unfold PiecesNamed
  rw [List.flatMap_append]
  exact .append h h'

/-- The code in a string has words for names. -/
def Coded (segments : List (Segment Token)) : Prop :=
  ∀ tokens pos, .code tokens pos ∈ segments → ∀ token ∈ tokens, token.Worded

theorem ensures_pieces {segments : List (Segment Token)} (coded : Coded segments) :
    Ensures (pieces parse segments) PiecesNamed := by
  have each : Ensures (pieces parse segments) fun found => ∀ piece ∈ found, PiecesNamed [piece] := by
    refine .mapM fun segment mem => ?_
    cases segment with
    | text value => exact .pure .nil
    | code tokens pos => exact rules.on (.code tokens pos) (coded tokens pos mem)
  refine each.imp fun found made node mem => ?_
  obtain ⟨piece, among, inner⟩ := List.mem_flatMap.1 mem
  exact made piece among node (List.mem_flatMap.2 ⟨piece, List.mem_singleton_self piece, inner⟩)

theorem ensures_adjacent : Ensures (adjacent parse) PiecesNamed := by
  refine Ensures.look.bind fun token worded => ?_
  cases lexeme : token.lexeme with
  | string segments =>
    have coded : Coded segments := fun tokens pos mem => worded.inner (by rw [lexeme]; exact mem)
    refine .ite (.after fun _ => (ensures_pieces rules coded).bind fun _ first => ?_) (.pure .nil)
    exact (rules.on .adjacent trivial).bind fun _ others => .pure (piecesNamed_append first others)
  | _ => exact .pure .nil

section Pieces

variable {α : Type} {f : Piece Node → List α}

omit rules in
theorem flatMap_joinTexts (plain : ∀ value, f (.text value) = []) (pieces : List (Piece Node)) :
    (joinTexts pieces).flatMap f = pieces.flatMap f := by
  fun_induction joinTexts pieces with
  | case1 => rfl
  | case2 pos statements rest ih => rw [List.flatMap_cons, List.flatMap_cons, ih]
  | case3 value rest empty ih => rw [List.flatMap_cons, plain, List.nil_append, ih]
  | case4 value rest filled more others joined ih =>
    rw [joined, List.flatMap_cons, plain] at ih
    rw [List.flatMap_cons, List.flatMap_cons, plain, plain, ih]
    rfl
  | case5 value rest filled others ih => rw [List.flatMap_cons, List.flatMap_cons, ih]

omit rules in
/-- The normal form of a string has no code that the string does not have. -/
theorem flatMap_normalPieces_subset (plain : ∀ value, f (.text value) = []) (pieces : List (Piece Node)) :
    (normalPieces pieces).flatMap f ⊆ pieces.flatMap f := by
  unfold normalPieces
  split
  · intro held mem
    obtain ⟨piece, among, inner⟩ := List.mem_flatMap.1 mem
    exact List.mem_flatMap.2 ⟨piece, List.mem_of_mem_take among, inner⟩
  · rw [flatMap_joinTexts plain]
    exact List.Subset.refl _

end Pieces

omit rules in
theorem piecesNamed_normalPieces {pieces : List (Piece Node)} (h : PiecesNamed pieces) :
    PiecesNamed (normalPieces pieces) :=
  fun node mem => h node (flatMap_normalPieces_subset (fun _ => rfl) pieces mem)

theorem ensures_stringLiteral (pos : Position) {segments : List (Segment Token)} (coded : Coded segments) :
    Ensures (stringLiteral parse pos segments) Node.Named := by
  refine (ensures_pieces rules coded).bind fun _ first => (rules.on .adjacent trivial).bind fun _ others => ?_
  exact .pure (.of (normal_normalPieces _) (piecesNamed_normalPieces (piecesNamed_append first others)))

omit rules in
theorem ensures_restore {outer : State} (worded : outer.Worded) :
    Ensures (modify fun inner => { outer with scopes := inner.scopes } : Parser Unit) fun _ => True := by
  intro state value after _ run
  obtain ⟨-, rfl⟩ := Prod.mk.inj (Except.ok.inj run)
  exact ⟨trivial, worded⟩

omit rules in
theorem worded_inside {tokens : List Token} (pos : Position) (words : ∀ token ∈ tokens, token.Worded)
    (scopes : List Scope) (barred : Nat) :
    State.Worded ⟨tokens.dropLast, tokens.getLast?.getD ⟨.endOfText, pos, true⟩, scopes, barred⟩ := by
  intro token mem
  obtain front | last := List.mem_append.1 mem
  · exact words token (List.dropLast_subset tokens front)
  · obtain rfl := List.mem_singleton.1 last
    cases known : tokens.getLast? with
    | none => exact .intro trivial fun _ _ within => (List.not_mem_nil within).elim
    | some final => exact words final (List.mem_of_getLast? known)

theorem ensures_embedded {tokens : List Token} (pos : Position) (words : ∀ token ∈ tokens, token.Worded) :
    Ensures (embedded parse tokens pos) fun piece => PiecesNamed [piece] := by
  intro outer piece after worded run
  -- the tokens of the code take the place of those around the string, which come back behind it
  have inside : Ensures (do
      let statements ← parse (.statements {})
      if !(← atStop {}) then complain .unexpectedInCode
      modify fun inner => { outer with scopes := inner.scopes }
      return Piece.code pos statements) fun piece => PiecesNamed [piece] := by
    refine (rules.statements {}).bind fun statements made => ?_
    have inner : PiecesNamed [Piece.code pos statements] := by
      unfold PiecesNamed
      rw [List.flatMap_singleton]
      exact made
    have close : Ensures (do
        modify fun inner => { outer with scopes := inner.scopes }
        return Piece.code pos statements) fun piece => PiecesNamed [piece] :=
      (ensures_restore worded).bind fun _ _ => .pure inner
    exact .after fun _ => .ite (.after fun _ => close) close
  exact inside (worded_inside pos words _ _) run

theorem ensures_hashKey : Ensures (hashKey parse) Node.Named := by
  refine .after fun token => ?_
  cases token.lexeme with
  | label name => exact .after fun _ => .after fun _ => .pure (.of trivial .nil)
  | _ => exact rules.expression.bind fun _ key => .after fun _ => .after fun _ => .after fun _ => .pure key

theorem ensures_pairs : Ensures (pairs parse) PairsNamed := by
  refine .after fun _ => .ite (.pure .nil) ?_
  refine (ensures_hashKey rules).bind fun _ key => rules.expression.bind fun _ value => .after fun _ => ?_
  refine .after fun _ => ?_
  refine .ite (.after fun _ => .after fun _ => ?_) (.pure (.one ⟨key, value⟩))
  exact (rules.on .pairs trivial).bind fun _ others => .pure (.cons ⟨key, value⟩ others)

theorem ensures_hash : Ensures (hash parse) Node.Named := by
  refine .after fun _ => .enclosed (.after fun _ => (rules.on .pairs trivial).bind fun _ made => ?_)
  exact .after fun _ => .pure (.of trivial (allNamed_pairs made))

/-! Keywords -/

theorem ensures_elseClause : Ensures (elseClause parse) fun found => AllNamed found.toList := by
  refine .after fun _ => .ite (.after fun _ => ?_) (.pure .nil)
  exact (rules.statements _).bind fun _ made => .pure (.one (.of trivial made))

theorem ensures_branch : Ensures (branch parse) Node.Named := by
  refine .after fun token => rules.connective.bind fun cond made => .after fun _ =>
    (rules.statements _).bind fun statements body => ?_
  refine .after fun _ => .ite ?_ ?_
  · exact rules.branch.bind fun _ last => .pure (.of trivial (.append (.cons made body) (.one last)))
  · exact (ensures_elseClause rules).bind fun _ last => .after fun _ =>
      .pure (.of trivial (.append (.cons made body) last))

theorem ensures_loopBody : Ensures (loopBody parse) AllNamed :=
  .after fun _ => (rules.statements _).bind fun _ made => .after fun _ => .pure made

theorem ensures_loop (polarity : Polarity) : Ensures (loop parse polarity) Node.Named :=
  .after fun _ => rules.connective.leavingDo.bind fun _ made => (ensures_loopBody rules).bind fun _ body =>
    .pure (.of trivial (.cons made body))

theorem ensures_forLoop : Ensures (forLoop parse) Node.Named := by
  refine .after fun _ => (rules.on .targets trivial).bind fun _ _ => .after fun _ => .after fun _ => ?_
  exact rules.connective.leavingDo.bind fun _ made => (ensures_loopBody rules).bind fun _ body =>
    .pure (.of trivial (.cons made body))

theorem ensures_whens : Ensures (whens parse) AllNamed := by
  refine .after fun _ => .ite (.after fun _ => ?_) (.pure .nil)
  refine (ensures_argumentList rules none).bind fun _ made => .after fun _ => (rules.statements _).bind fun _ body => ?_
  exact (rules.on .whens trivial).bind fun _ others => .pure (.cons (.of trivial (.append made body)) others)

theorem ensures_caseOf : Ensures (caseOf parse) Node.Named := by
  refine .after fun token => .after fun _ => ?_
  have close {subject : Option Node} (made : AllNamed subject.toList) : Ensures
      (do skipSeparators
          let clauses ← parse .whens
          if clauses.isEmpty then complain .expectedWhen
          let orelse ← elseClause parse
          consumeWord "end"
          return Node.caseOf token.pos subject clauses orelse) Node.Named := by
    refine .after fun _ => (rules.on .whens trivial).bind fun clauses tests => ?_
    have rest : Ensures
        (do let orelse ← elseClause parse
            consumeWord "end"
            return Node.caseOf token.pos subject clauses orelse) Node.Named :=
      (ensures_elseClause rules).bind fun _ last => .after fun _ =>
        .pure (.of trivial (.append (.append made tests) last))
    exact .ite (.after fun _ => rest) rest
  exact .ite (Ensures.none.bind fun _ made => close made) (rules.connective.some.bind fun _ made => close made)

theorem ensures_beginBlock : Ensures (beginBlock parse) Node.Named := by
  refine .after fun token => (ensures_body rules token.pos).bind fun statements made => .after fun _ => ?_
  split
  · exact .pure (made _ (List.mem_singleton_self _))
  · exact .pure (.of trivial (.append (.append (.append made .nil) .nil) .nil))

theorem ensures_jump (word : String) : Ensures (jump parse word) Node.Named := by
  refine .after fun _ => .after fun _ => .ite ?_ ?_
  · exact rules.expression.some.bind fun _ made => .pure (.of trivial made)
  · exact Ensures.none.bind fun _ made => .pure (.of trivial made)

theorem ensures_keywordCall (word : String) : Ensures (keywordCall parse word) Node.Named := by
  refine .after fun token => .after fun _ => .after fun _ => .ite (.after fun _ => ?_) (.ite ?_ ?_)
  · exact (ensures_delimitedArguments rules .round).bind fun _ made => .pure (.of trivial made)
  · exact (ensures_argumentList rules none).leavingDo.bind fun _ made => .pure (.of trivial made)
  · exact (Ensures.pure (Throughout.nil : AllNamed [])).bind fun _ made => .pure (.of trivial made)

theorem ensures_params (parenthesized : Bool) : Ensures (params parse parenthesized) fun _ => True := by
  refine .after fun _ => .ite (.quiet _) (.after fun token => ?_)
  have more (name : String) : Ensures (do return name :: (← parse (.params parenthesized))) fun _ => True :=
    (rules.on (.params parenthesized) trivial).bind fun _ _ => .pure trivial
  have skipped : Ensures (discard (parse .choice)) fun _ => True :=
    rules.choice.map fun _ _ => trivial
  cases token.lexeme with
  | identifier name =>
    exact .after fun _ => .after fun _ => .ite (.after fun _ => skipped.bind fun _ _ => more name) (more name)
  | label name => exact .after fun _ => .after fun _ => .ite (skipped.bind fun _ _ => more name) (more name)
  | operator op =>
    refine .ite (.after fun next => ?_) (.quiet _)
    cases next.lexeme with
    | identifier name => exact .after fun _ => .after fun _ => more name
    | _ => exact rules.on (.params parenthesized) trivial
  | comma => exact rules.on (.params parenthesized) trivial
  | _ => exact .quiet _

theorem ensures_blockNames : Ensures (blockNames parse) fun _ => True := by
  refine .after fun _ => .ite (.quiet _) (.after fun token => ?_)
  have more (name : String) : Ensures (do return name :: (← parse .blockNames)) fun _ => True :=
    (rules.on .blockNames trivial).bind fun _ _ => .pure trivial
  cases token.lexeme with
  | identifier name | label name => exact more name
  | operator op =>
    refine .after fun next => ?_
    cases next.lexeme with
    | identifier name => exact .ite (.after fun _ => more name) (.quiet _)
    | _ => exact .quiet _
  | comma => exact rules.on .blockNames trivial
  | opening bracket | closing bracket =>
    cases bracket with
    | round => exact rules.on .blockNames trivial
    | _ => exact .quiet _
  | _ => exact .quiet _

theorem ensures_targets : Ensures (targets parse) fun _ => True :=
  .after fun _ => .after fun _ =>
    .ite (.after fun _ => (rules.on .targets trivial).bind fun _ _ => .pure trivial) (.quiet _)

theorem ensures_constantNames : Ensures (constantNames parse) fun _ => True :=
  .after fun _ => .after fun _ =>
    .ite (.after fun _ => (rules.on .constantNames trivial).bind fun _ _ => .pure trivial) (.quiet _)

theorem ensures_constantName : Ensures (constantName parse) fun _ => True :=
  (rules.on .constantNames trivial).bind fun _ _ => .pure trivial

theorem ensures_methodParams : Ensures (methodParams parse) fun _ => True :=
  .after fun parenthesized => .ite (.after fun _ => rules.on (.params parenthesized) trivial)
    (rules.on (.params parenthesized) trivial)

theorem ensures_methodDef : Ensures (methodDef parse) Node.Named :=
  .after fun token => .after fun _ => .inScope <| .enclosed <|
    (ensures_methodParams rules).bind fun _ _ => (ensures_body rules token.pos).bind fun _ made =>
      .after fun _ => .pure (.of trivial made)

theorem ensures_definitionBody : Ensures (definitionBody parse) AllNamed :=
  .inScope ((rules.statements _).bind fun _ made => .after fun _ => .pure made)

theorem ensures_classDef : Ensures (classDef parse) Node.Named := by
  refine .after fun token => .after fun _ => ?_
  have close (name : String) {superclass : Option Node} (made : AllNamed superclass.toList) :
      Ensures (do return .classDef token.pos name superclass (← definitionBody parse)) Node.Named :=
    (ensures_definitionBody rules).bind fun _ body => .pure (.of trivial (.append made body))
  have rest : Ensures
      (do let name ← constantName parse
          let superclass ←
            if ← check (·.isOperator "<") then do
              discard advance
              some <$> parse .expression
            else pure none
          return Node.classDef token.pos name superclass (← definitionBody parse)) Node.Named := by
    refine (ensures_constantName rules).bind fun name _ => .after fun _ => .ite (.after fun _ => ?_) ?_
    · exact rules.expression.some.bind fun _ made => close name made
    · exact Ensures.none.bind fun _ made => close name made
  exact .ite (.after fun _ => rest) rest

theorem ensures_moduleDef : Ensures (moduleDef parse) Node.Named :=
  .after fun _ => (ensures_constantName rules).bind fun _ _ => (ensures_definitionBody rules).bind fun _ made =>
    .pure (.of trivial made)

theorem ensures_keyword (token : Token) (word : String) : Ensures (keyword parse token word) Node.Named := by
  unfold keyword
  split
  case h_6 | h_7 => exact rules.branch
  case h_8 | h_9 => exact ensures_loop rules _
  case h_10 => exact ensures_forLoop rules
  case h_11 => exact ensures_caseOf rules
  case h_12 => exact ensures_beginBlock rules
  case h_13 => exact ensures_methodDef rules
  case h_14 => exact ensures_classDef rules
  case h_15 => exact ensures_moduleDef rules
  case h_16 | h_17 | h_18 => exact ensures_jump rules _
  case h_19 | h_20 => exact ensures_keywordCall rules _
  case h_21 =>
    exact .after fun _ => rules.expression.bind fun _ made => .pure (.of (worded_not _ _) (.one made))
  case h_22 => exact .complain
  all_goals exact .after fun _ => .pure (.of (.inl (.of_all (by decide) (by decide))) .nil)

theorem ensures_primary : Ensures (primary parse) Node.Named := by
  refine Ensures.look.bind fun token worded => ?_
  have spelled := worded.lexeme
  have bare : AllNamed (none : Option Node).toList := .nil
  have number {α : Type} (value : Except Text.NumberFault α) : Ensures (fromNumber value) fun _ => True := by
    cases value with
    | ok value => exact .quiet (pure value)
    | error fault => exact .throw
  dsimp only
  cases lexeme : token.lexeme with
  | integer digits => exact .after fun _ => (number _).bind fun _ _ => .pure (.of trivial .nil)
  | float digits => exact .after fun _ => (number _).bind fun _ _ => .pure (.of trivial .nil)
  | string segments =>
    have coded : Coded segments := fun tokens pos mem => worded.inner (by rw [lexeme]; exact mem)
    exact .after fun _ => ensures_stringLiteral rules token.pos coded
  | shell segments =>
    have coded : Coded segments := fun tokens pos mem => worded.inner (by rw [lexeme]; exact mem)
    exact .after fun _ => (ensures_pieces rules coded).bind fun _ made => .pure (.of trivial made)
  | regexp source flags => exact .after fun _ => .pure (.of trivial .nil)
  | symbol name => exact .after fun _ => .pure (.of trivial .nil)
  | words items =>
    refine .after fun _ => .pure (.of trivial fun node mem => ?_)
    obtain ⟨item, -, rfl⟩ := List.mem_map.1 mem
    exact .of (.lone item) .nil
  | symbols items =>
    refine .after fun _ => .pure (.of trivial fun node mem => ?_)
    obtain ⟨item, -, rfl⟩ := List.mem_map.1 mem
    exact .of trivial .nil
  | instanceVar name | globalVar name =>
    rw [lexeme] at spelled
    exact .after fun _ => .pure (.of (.inr spelled) .nil)
  | constant name =>
    rw [lexeme] at spelled
    exact .after fun _ => .after fun _ => .ite (ensures_callRest rules spelled bare token.pos)
      (.pure (.of (.inl spelled) .nil))
  | identifier name =>
    rw [lexeme] at spelled
    exact .after fun _ => .after fun _ => .after fun _ => .ite (.pure (.of (.inl spelled) .nil))
      (ensures_callRest rules spelled bare token.pos)
  | keyword word => exact ensures_keyword rules token word
  | opening bracket =>
    cases bracket with
    | round =>
      exact .after fun _ => .enclosed ((rules.statements _).bind fun _ made => .after fun _ => .pure (.of trivial made))
    | square =>
      exact .after fun _ => (ensures_delimitedArguments rules .square).bind fun _ made => .pure (.of trivial made)
    | curly => exact ensures_hash rules
  | doubleColon => exact .after fun _ => .after fun _ => .pure (.of trivial .nil)
  | operator spelling =>
    split
    all_goals first | contradiction | exact .complain
  | _ => exact .complain

theorem named_step : NamedRules (step parse) := by
  constructor
  intro α rule given
  cases rule with
  | statements stop => exact ensures_statements rules stop
  | statement => exact rules.connective.bind fun _ made => rules.modifiers made
  | modifiers node => exact ensures_modifiers rules given
  | connective => exact rules.negation.bind fun _ made => rules.connectiveRest made
  | connectiveRest left => exact ensures_connectiveRest rules given
  | negation => exact ensures_negation rules
  | expression => exact ensures_expression rules
  | choice => exact ensures_choice rules
  | binary least => exact rules.unary.bind fun _ made => rules.binaryRest made
  | binaryRest least left => exact ensures_binaryRest rules given
  | unary => exact ensures_unary rules
  | operand => exact (ensures_primary rules).bind fun _ made => rules.trailers made
  | trailers base => exact ensures_trailers rules given
  | arguments closer named => exact ensures_arguments rules closer named
  | adjacent => exact ensures_adjacent rules
  | code tokens pos => exact ensures_embedded rules pos given
  | pairs => exact ensures_pairs rules
  | blockNames => exact ensures_blockNames rules
  | params parenthesized => exact ensures_params rules parenthesized
  | branch => exact ensures_branch rules
  | whens => exact ensures_whens rules
  | rescues => exact ensures_rescues rules
  | exceptions => exact ensures_exceptions rules
  | targets => exact ensures_targets rules
  | constantNames => exact ensures_constantNames rules

theorem ensures_program : Ensures (program parse) Node.Named :=
  (rules.statements _).bind fun _ made => .after fun _ =>
    .ite (.after fun _ => .pure (.of trivial made)) (.pure (.of trivial made))

omit rules in
theorem named_rule (fuel : Nat) : NamedRules (rule fuel) := by
  induction fuel with
  | zero => exact ⟨fun _ _ => .after fun _ => .throw⟩
  | succ fuel ih => exact named_step ih

omit rules in
theorem worded_start {tokens : List Token} (words : ∀ token ∈ tokens, token.Worded) : (start tokens).Worded :=
  worded_inside .origin words _ _

end Formulary.Grammar

namespace Formulary

/-- The names in the tree of a recipe are words, but for those of the variables that a sigil marks, and the texts of its
strings are in normal form. -/
theorem named_of_parseRecipe {text : List Char} {program : Node} (read : parseRecipe text = .ok program) :
    program.Named := by
  unfold parseRecipe at read
  split at read
  · rename_i tokens scanned
    obtain ⟨found, parsed, rfl⟩ := Result.map_eq_ok_iff.1 read
    exact (Grammar.ensures_program (Grammar.named_rule _) (Grammar.worded_start (worded_tokenize scanned)) parsed).1
  · contradiction

end Formulary
