import Formulary.Proofs.Grammar.Proceeds
import Formulary.Proofs.Grammar.Worded

/-!
The lines in the tree of a recipe. Each construct of the grammar makes a tree that lies between the line where it begins
and the tokens that it leaves, if the rules that it applies do, so all rules do, by induction on how deep they may call
one another.
-/

namespace Formulary.Grammar

variable {low start : Nat}

namespace LaidRules

variable {parse : Rules} (rules : LaidRules parse)
include rules

theorem statements (stop : Stop) : Proceeds low (parse (.statements stop)) (Stretch low) :=
  rules.on low (.statements stop) trivial

theorem connective : Proceeds low (parse .connective) (Node.Fits low) :=
  rules.on low .connective trivial

theorem negation : Proceeds low (parse .negation) (Node.Fits low) :=
  rules.on low .negation trivial

theorem expression : Proceeds low (parse .expression) (Node.Fits low) :=
  rules.on low .expression trivial

theorem choice : Proceeds low (parse .choice) (Node.Fits low) :=
  rules.on low .choice trivial

theorem binary (least : Nat) : Proceeds low (parse (.binary least)) (Node.Fits low) :=
  rules.on low (.binary least) trivial

theorem unary : Proceeds low (parse .unary) (Node.Fits low) :=
  rules.on low .unary trivial

theorem operand : Proceeds low (parse .operand) (Node.Fits low) :=
  rules.on low .operand trivial

theorem branch : Proceeds low (parse .branch) (Node.Fits low) :=
  rules.on low .branch trivial

theorem modifiers {node : Node} (h : node.Fits start low) : Proceeds low (parse (.modifiers node)) (Node.Fits start) :=
  rules.on start (.modifiers node) h

theorem connectiveRest {left : Node} (h : left.Fits start low) :
    Proceeds low (parse (.connectiveRest left)) (Node.Fits start) :=
  rules.on start (.connectiveRest left) h

theorem binaryRest {least : Nat} {left : Node} (h : left.Fits start low) :
    Proceeds low (parse (.binaryRest least left)) (Node.Fits start) :=
  rules.on start (.binaryRest least left) h

theorem trailers {base : Node} (h : base.Fits start low) : Proceeds low (parse (.trailers base)) (Node.Fits start) :=
  rules.on start (.trailers base) h

theorem arguments (closer : Option Bracket) (named : Bool) :
    Proceeds low (parse (.arguments closer named)) (ArgumentsBetween low named) :=
  rules.on low (.arguments closer named) trivial

end LaidRules

/-- What begins at a line also begins at one above it. -/
theorem Proceeds.below {p : Parser Node} {mid : Nat} (h : Proceeds mid p (Node.Fits mid)) (le : low ≤ mid) :
    Proceeds mid p (Node.Fits low) :=
  h.imp fun _ _ _ made => made.below le

theorem proceeds_assignable {node : Node} (h : node.Fits start low) (token : Token) :
    Proceeds low (assignable node token) (Node.Fits start) := by
  unfold assignable
  split
  · exact .ite .complainAt (.ite (.after fun _ => .pure h) (.pure h))
  · exact .after fun _ => .pure (.leaf h.low_le h.le_high rfl)
  · exact .pure h
  · exact .pure h
  · exact .pure h
  · exact .complainAt

variable {parse : Rules} (rules : LaidRules parse)
include rules

/-! Statements and operators -/

theorem proceeds_statements (stop : Stop) : Proceeds low (statements parse stop) (Stretch low) := by
  refine .after fun _ => .after fun _ => .ite .empty ?_
  refine (rules.on low .statement trivial).bind fun mid first _ made => ?_
  have more : Proceeds mid (do return first :: (← parse (.statements stop))) (Stretch low) :=
    (rules.statements stop).bind fun _ _ _ others => .pure (.cons made others)
  exact .after fun _ => .after fun _ => .ite (.after fun _ => more) more

theorem proceeds_modifiers {node : Node} (h : node.Fits start low) :
    Proceeds low (modifiers parse node) (Node.Fits start) := by
  refine .after fun token => ?_
  dsimp only
  split
  case h_6 => exact .pure h
  all_goals
    exact .after fun _ => rules.connective.bind fun _ _ _ made =>
      rules.modifiers (.of h.low_le (.cons h.tight (.one made)) rfl)

theorem proceeds_connectiveRest {left : Node} (h : left.Fits start low) :
    Proceeds low (connectiveRest parse left) (Node.Fits start) := by
  refine .after fun token => ?_
  cases token.lexeme.keyword? with
  | none => exact .pure h
  | some word =>
    refine .ite ?_ (.pure h)
    exact .after fun _ => .after fun _ => rules.negation.bind fun _ _ _ made =>
      rules.connectiveRest (.of h.low_le (.cons h.tight (.one made)) rfl)

theorem proceeds_negation : Proceeds low (negation parse) (Node.Fits low) :=
  .look fun _ le _ => .ite
    (.after fun _ => rules.negation.bind fun _ _ _ made => .pure (.of le (.one made) rfl)) (rules.expression.below le)

theorem proceeds_expression : Proceeds low (expression parse) (Node.Fits low) := by
  refine rules.choice.bind fun _ target _ made => .after fun token => ?_
  cases token.lexeme.operator? with
  | none => exact .pure made
  | some op =>
    refine .ite ?_ (.ite ?_ (.pure made))
    all_goals
      exact (proceeds_assignable made token).bind fun _ _ _ kept => .after fun _ => .after fun _ =>
        rules.expression.bind fun _ _ _ value => .pure (.of kept.low_le (.cons kept.tight (.one value)) rfl)

theorem proceeds_range : Proceeds low (range parse) (Node.Fits low) := by
  refine (rules.binary 0).bind fun _ _ _ made => .after fun token =>
    .ite (.after fun _ => .after fun _ => ?_) (.pure made)
  exact .ite (Proceeds.none.bind fun _ _ _ bound => .pure (.of made.low_le (.cons made.tight bound) rfl))
    ((rules.binary 0).some.bind fun _ _ _ bound => .pure (.of made.low_le (.cons made.tight bound) rfl))

theorem proceeds_choice : Proceeds low (choice parse) (Node.Fits low) := by
  refine (proceeds_range rules).bind fun _ _ _ made => .after fun _ =>
    .ite (.after fun _ => .after fun _ => ?_) (.pure made)
  exact rules.choice.bind fun _ _ _ first => .after fun _ => .after fun _ => .after fun _ =>
    rules.choice.bind fun _ _ _ second => .pure (.of made.low_le (.cons made.tight (.cons first (.one second))) rfl)

theorem proceeds_binaryRest {least : Nat} {left : Node} (h : left.Fits start low) :
    Proceeds low (binaryRest parse least left) (Node.Fits start) := by
  refine .after fun token => ?_
  cases token.lexeme.operator? with
  | none => exact .pure h
  | some op =>
    dsimp only
    cases precedence? op with
    | none => exact .pure h
    | some precedence =>
      refine .ite (.pure h) (.after fun _ => .after fun _ => (rules.binary _).bind fun _ right _ made => ?_)
      exact rules.binaryRest (.of h.low_le (.cons h.tight (.one made)) rfl)

omit rules in
theorem fits_signed {high : Nat} {sign : String} {node : Node} {pos : Position} (le : low ≤ pos.line)
    (h : node.Fits pos.line high) : (signed pos sign node).Fits low high := by
  unfold signed
  split
  case h_3 | h_4 => exact .leaf (Nat.le_trans le h.low_le) h.le_high rfl
  case h_5 => exact .of le (.one h) rfl
  all_goals exact .leaf le h.le rfl

theorem proceeds_unary : Proceeds low (unary parse) (Node.Fits low) := by
  refine .look fun token le _ => ?_
  cases token.lexeme.operator? with
  | none => exact rules.operand.below le
  | some op =>
    refine .ite ?_ (.ite ?_ (rules.operand.below le))
    · exact .after fun _ => rules.unary.bind fun _ _ _ made => .pure (.of le (.one made) rfl)
    · refine .after fun _ => .after fun _ => .ite ?_ ?_
      · exact rules.operand.bind fun _ _ _ made => .pure (fits_signed le made)
      · exact rules.unary.bind fun _ _ _ made => .pure (.of le (.one made) rfl)

/-! Calls -/

theorem proceeds_argument (named : Bool) : Proceeds low (argument parse named) (ItemBetween low named) := by
  refine .look fun token le _ => ?_
  have plain : Proceeds token.pos.line
      (do let value ← parse .expression
          if ← check Lexeme.isArrow then
            discard advance
            skipNewlines
            return Sum.inr (value, ← parse .expression)
          else if named then complain .positionalAfterPairs
          else return Sum.inl value) (ItemBetween low named) := by
    refine (rules.expression.below le).bind fun _ _ _ made => .after fun _ => .ite ?_ ?_
    · exact .after fun _ => .after fun _ => rules.expression.bind fun _ _ _ value => .pure ⟨_, made, value⟩
    · cases named with
      | true => exact .complain
      | false => exact .pure ⟨made, nofun⟩
  have spread {node : Node → Node} (at_token : ∀ value, (node value).line = token.pos.line)
      (holds : ∀ value, (node value).constituents = [value] ∧ (node value).surface = [value])
      (moved : ∀ value, (node value).isSpread = true) :
      Proceeds token.pos.line (do
        discard advance
        return Sum.inl (node (← parse .expression)) : Parser (Node ⊕ Node × Node)) (ItemBetween low named) := by
    refine .after fun _ => rules.expression.bind fun _ value _ made => .pure ⟨.of ?_ ?_ ?_, fun _ => moved value⟩
    · rwa [at_token]
    · rw [at_token, (holds value).1]
      exact .one made
    · rw [(holds value).1, (holds value).2]
  cases token.lexeme with
  | label name =>
    exact .after fun _ => .after fun _ => rules.expression.bind fun _ _ _ value =>
      .pure ⟨_, .leaf le (Nat.le_refl _) rfl, value⟩
  | operator spelling =>
    split
    · contradiction
    · exact spread (fun _ => rfl) (fun _ => ⟨rfl, rfl⟩) fun _ => rfl
    · exact spread (fun _ => rfl) (fun _ => ⟨rfl, rfl⟩) fun _ => rfl
    · exact spread (fun _ => rfl) (fun _ => ⟨rfl, rfl⟩) fun _ => rfl
    · exact plain
  | _ => exact plain

theorem proceeds_arguments (closer : Option Bracket) (named : Bool) :
    Proceeds low (arguments parse closer named) (ArgumentsBetween low named) := by
  refine (proceeds_argument rules named).bind fun mid item _ made => .after fun goOn => ?_
  have none (named : Bool) : Proceeds mid (pure ([], [])) (ArgumentsBetween mid named) := .pure (.none named mid)
  cases item with
  | inl arg =>
    refine .ite (.after fun _ => .after fun _ => ?_) ?_
    all_goals
      refine .after fun _ => .ite ((none named).bind fun _ _ _ others => ?_)
        ((rules.arguments closer _).bind fun _ _ _ others => ?_)
    all_goals exact .pure (.cons_arg made (by simpa using others))
  | inr pair =>
    refine .ite (.after fun _ => .after fun _ => ?_) ?_
    all_goals
      refine .after fun _ => .ite ((none true).bind fun _ _ _ others => ?_)
        ((rules.arguments closer _).bind fun _ _ _ others => ?_)
    all_goals exact .pure (.cons_pair made (by simpa using others))

theorem proceeds_argumentList (closer : Option Bracket) : Proceeds low (argumentList parse closer) (Listing low) := by
  refine (rules.arguments closer false).bind fun high found _ made => ?_
  obtain ⟨args, pairs⟩ := found
  cases pairs with
  | nil => exact .pure made.args.loose
  | cons pair rest =>
    have row := made.first pair rfl
    have key := made.pairs.fits pair.1 List.mem_cons_self
    have last : (Node.hash pair.1.pos (pair :: rest) false).Fits low high := .of key.low_le row rfl
    refine .pure ⟨last.le, List.forall_mem_append.2 ⟨made.args.fits, List.forall_mem_singleton.2 last⟩,
      List.pairwise_append.2 ⟨made.args.loose.ordered, List.pairwise_singleton _ _, fun arg mem hash among => ?_⟩⟩
    obtain rfl := List.mem_singleton.1 among
    refine (made.before arg mem).symm.imp (fun precedes node covers => ?_) fun moved => ⟨moved, rfl⟩
    -- the line of the pairs is that of their first key
    exact Node.forall_leads_iff.2 ⟨precedes pair.1 List.mem_cons_self node covers pair.1 .self,
      fun side among => precedes side among node covers⟩

theorem proceeds_delimitedArguments (closer : Bracket) :
    Proceeds low (delimitedArguments parse closer) (Listing low) := by
  refine .enclosed (.after fun _ => .after fun _ => .ite (.after fun _ => .pure (Stretch.nil (Nat.le_refl _)).loose) ?_)
  exact (proceeds_argumentList rules (some closer)).bind fun _ _ _ made => .after fun _ => .after fun _ => .pure made

/-- A body lies in a row, with the place of its clauses taken from a token before it. -/
theorem proceeds_body {place : Position} (le : place.line ≤ low) :
    Proceeds low (body parse place) (Stretch place.line) := by
  refine (rules.statements _).bind fun _ statements _ made => ?_
  refine (rules.on low .rescues trivial).bind fun mid rescues _ saved => ?_
  have row : Stretch place.line mid (statements ++ rescues) := (made.append saved).below le
  have close {mid' : Nat} {elseBody : List Node} (kept : Stretch mid mid' elseBody) : Proceeds mid' (do
      let mut ensureBody := []
      if ← checkWord "ensure" then
        discard advance
        ensureBody ← parse (.statements ⟨["end"], none⟩)
      if rescues.isEmpty && ensureBody.isEmpty then return statements
      else return [.guarded place statements rescues elseBody ensureBody]) (Stretch place.line) := by
    have plain {high : Nat} (le' : mid' ≤ high) : Stretch place.line high statements :=
      made.mono le (Nat.le_trans saved.le (Nat.le_trans kept.le le'))
    refine .after fun _ => .ite (.after fun _ => (rules.statements _).bind fun _ _ le' last => ?_) ?_
    · exact .ite (.pure (plain le')) (.pure (.one (.of (Nat.le_refl _) ((row.append kept).append last) rfl)))
    · refine .ite (.pure (plain (Nat.le_refl _))) (.pure (.one (.of (Nat.le_refl _) ?_ rfl)))
      exact (row.append kept).append (.nil (Nat.le_refl _))
  refine .after fun _ => .ite (.after fun _ => (rules.statements _).bind fun _ _ _ other => close other) ?_
  exact close (.nil (Nat.le_refl _))

theorem proceeds_exceptions : Proceeds low (exceptions parse) (Stretch low) := by
  refine .after fun _ => .ite .empty ?_
  refine rules.choice.bind fun _ _ _ first => .after fun _ => .ite ?_ (.pure (.one first))
  exact .after fun _ => (rules.on low .exceptions trivial).bind fun _ _ _ others => .pure (.cons first others)

theorem proceeds_rescueClause : Proceeds low (rescueClause parse) (Node.Fits low) := by
  refine .read fun token le _ => (rules.on low .exceptions trivial).bind fun _ _ _ made => ?_
  refine .after fun _ => .ite ?_ ?_
  · exact .after fun _ => .after fun _ => .after fun _ => .after fun _ =>
      (rules.statements _).bind fun _ _ _ body => .pure (.of le (made.append body) rfl)
  · exact .after fun _ => (rules.statements _).bind fun _ _ _ body => .pure (.of le (made.append body) rfl)

theorem proceeds_rescues : Proceeds low (rescues parse) (Stretch low) := by
  refine .after fun _ => .ite ((proceeds_rescueClause rules).bind fun _ _ _ first => ?_) .empty
  exact (rules.on low .rescues trivial).bind fun _ _ _ others => .pure (.cons first others)

theorem proceeds_blockParams : Proceeds low (blockParams parse) fun _ _ => True := by
  refine .after fun token => ?_
  generalize token.lexeme.operator? = op
  split
  · exact .quiet _
  · exact .after fun _ => (rules.on low .blockNames trivial).bind fun _ _ _ _ => .quiet _
  · exact .quiet _

theorem proceeds_braceBlock : Proceeds low (braceBlock parse) (Node.Fits low) := by
  refine .read fun token le _ => .inScope (.enclosed ((proceeds_blockParams rules).bind fun _ _ le' _ => ?_))
  exact (rules.statements _).bind fun _ _ _ made => .after fun _ => .pure (.of le (made.below le') rfl)

theorem proceeds_doBlock : Proceeds low (doBlock parse) (Node.Fits low) := by
  refine .read fun token le _ => .inScope (.enclosed ((proceeds_blockParams rules).bind fun _ _ le' _ => ?_))
  exact (proceeds_body rules le').bind fun _ _ _ made => .after fun _ => .pure (.of le made rfl)

theorem proceeds_blockOption : Proceeds low (blockOption parse) fun high found => Stretch low high found.toList := by
  refine .after fun _ => .ite ?_ (.after fun _ => .ite ?_ .none)
  · exact (proceeds_braceBlock rules).bind fun _ _ _ made => .pure (.one made)
  · exact (proceeds_doBlock rules).bind fun _ _ _ made => .pure (.one made)

/-- A call stands where its receiver does, or else before its arguments. -/
theorem proceeds_callRest {name : String} {receiver : Option Node} {place : Position}
    (le : start ≤ place.line) (h : Stretch place.line low receiver.toList) :
    Proceeds low (callRest parse name receiver place) (Node.Fits start) := by
  have close {mid : Nat} {args : List Node} (parens : Bool) (made : Listing low mid args) :
      Proceeds mid (do return .call place name receiver args (← blockOption parse) parens) (Node.Fits start) :=
    (proceeds_blockOption rules).bind fun _ _ _ block =>
      .pure (.listing le ((h.loose.append made).append block.loose) rfl nofun)
  refine .after fun parens => .after fun _ => .ite (.after fun _ => ?_) (.ite ?_ ?_)
  · exact (proceeds_delimitedArguments rules .round).bind fun _ _ _ made => close parens made
  · exact (proceeds_argumentList rules none).leavingDo.bind fun _ _ _ made => close parens made
  · exact Proceeds.empty.bind fun _ _ _ made => close parens made.loose

theorem proceeds_colonTrailer {base : Node} (h : base.Fits start low) :
    Proceeds low (colonTrailer parse base) (Node.Fits start) := by
  have on {mid : Nat} (le : low ≤ mid) : Stretch base.line mid (some base).toList :=
    .one (h.tight.mono (Nat.le_refl _) le)
  refine .read fun token le _ => .after fun called => ?_
  cases token.lexeme with
  | constant name => exact .ite (proceeds_callRest rules h.low_le (on le)) (.pure (.of h.low_le (on le) rfl))
  | identifier name => exact proceeds_callRest rules h.low_le (on le)
  | _ => exact .complainAt

theorem proceeds_trailers {base : Node} (h : base.Fits start low) :
    Proceeds low (trailers parse base) (Node.Fits start) := by
  refine .after fun token => .ite (.after fun _ => .after fun _ => ?_) (.ite ?_ (.ite ?_ (.pure h)))
  · refine .read fun name le _ => ?_
    cases methodName? name.lexeme with
    | none => exact .complainAt
    | some word =>
      have on : Stretch base.line name.pos.line (some base).toList := .one (h.tight.mono (Nat.le_refl _) le)
      exact (proceeds_callRest rules h.low_le on).bind fun _ _ _ made => rules.trailers made
  · exact .after fun _ => (proceeds_colonTrailer rules h).bind fun _ _ _ made => rules.trailers made
  · exact .after fun _ => (proceeds_delimitedArguments rules .square).bind fun _ _ _ made =>
      rules.trailers (.listing h.low_le ((Stretch.one h.tight).loose.append made) rfl nofun)

/-! Literals -/

/-- The code in a string does not lie above a line, and so inside of it. -/
def CodedBelow (low : Nat) (segments : List (Segment Token)) : Prop :=
  ∀ tokens pos, .code tokens pos ∈ segments →
    low ≤ pos.line ∧ Ascending pos.line tokens ∧ ∀ token ∈ tokens, token.Stacked

omit rules in
theorem codedBelow_of_stacked {token : Token} (stacked : token.Stacked) :
    CodedBelow token.pos.line token.lexeme.segments :=
  fun _ _ within => ⟨(stacked.ascending within).1, (stacked.ascending within).2, stacked.inner within⟩

theorem proceeds_pieces {segments : List (Segment Token)} (coded : CodedBelow start segments) :
    Proceeds low (pieces parse segments) fun _ => CodeBelow start := by
  have each : Proceeds low (pieces parse segments) fun _ found => ∀ piece ∈ found, CodeBelow start [piece] := by
    refine .mapM fun segment mem mid _ => ?_
    cases segment with
    | text value => exact .pure (List.forall_mem_nil _)
    | code tokens pos => exact rules.on start (.code tokens pos) (coded tokens pos mem)
  refine each.imp fun _ found _ made code mem => ?_
  obtain ⟨piece, among, same⟩ := List.mem_filterMap.1 mem
  exact made piece among code (List.mem_filterMap.2 ⟨piece, List.mem_singleton_self piece, same⟩)

theorem proceeds_adjacent : Proceeds low (adjacent parse) fun _ => CodeBelow low := by
  refine .look fun token le stacked => ?_
  have coded := codedBelow_of_stacked stacked
  cases lexeme : token.lexeme with
  | string segments =>
    rw [lexeme] at coded
    refine .ite (.after fun _ => (proceeds_pieces rules coded).bind fun _ _ le' first => ?_)
      (.pure (List.forall_mem_nil _))
    exact (rules.on low .adjacent trivial).bind fun _ _ _ others =>
      .pure ((first.below le).append (others.below (Nat.le_trans le le')))
  | _ => exact .pure (List.forall_mem_nil _)

omit rules in
theorem codeBelow_normalPieces {pieces : List (Piece Node)} (h : CodeBelow low pieces) :
    CodeBelow low (normalPieces pieces) := by
  unfold CodeBelow at h ⊢
  rw [List.filterMap_eq_flatMap_toList] at h ⊢
  exact fun code mem => h code (flatMap_normalPieces_subset (fun _ => rfl) pieces mem)

theorem proceeds_stringLiteral {place : Position} {segments : List (Segment Token)} (le : start ≤ place.line)
    (le' : place.line ≤ low) (coded : CodedBelow place.line segments) :
    Proceeds low (stringLiteral parse place segments) (Node.Fits start) := by
  refine (proceeds_pieces rules coded).bind fun mid _ le'' first => ?_
  have least : place.line ≤ mid := Nat.le_trans le' le''
  refine (rules.on low .adjacent trivial).bind fun _ _ more others => .pure (.coded le (Nat.le_trans least more) ?_ rfl)
  exact codeBelow_normalPieces (first.append (others.below least))

omit rules in
theorem ascends_inside {tokens : List Token} {pos : Position} (ascending : Ascending pos.line tokens)
    (stacked : ∀ token ∈ tokens, token.Stacked) (scopes : List Scope) (barred : Nat) :
    State.Ascends pos.line ⟨tokens.dropLast, tokens.getLast?.getD ⟨.endOfText, pos, true⟩, scopes, barred⟩ := by
  cases known : tokens.getLast? with
  | none =>
    obtain rfl := List.getLast?_eq_none_iff.1 known
    exact ⟨⟨List.forall_mem_singleton.2 (Nat.le_refl _), List.pairwise_singleton _ _⟩,
      List.forall_mem_singleton.2 (.of_bare rfl)⟩
  | some final =>
    have whole : tokens.dropLast ++ [final] = tokens := by
      obtain ⟨front, rfl⟩ := List.getLast?_eq_some_iff.1 known
      rw [List.dropLast_concat]
    exact ⟨whole.symm ▸ ascending, whole.symm ▸ stacked⟩

theorem proceeds_embedded {tokens : List Token} {pos : Position} (below : start ≤ pos.line)
    (ascending : Ascending pos.line tokens) (stacked : ∀ token ∈ tokens, token.Stacked) :
    Proceeds low (embedded parse tokens pos) fun _ piece => CodeBelow start [piece] := by
  intro outer piece after ascends run
  -- the tokens of the code take the place of those around the string, which come back behind it
  have inside : StateT.run (do
      let statements ← parse (.statements {})
      if !(← atStop {}) then complain .unexpectedInCode
      modify fun inner => { outer with scopes := inner.scopes }
      return Piece.code pos statements)
        ⟨tokens.dropLast, tokens.getLast?.getD ⟨.endOfText, pos, true⟩, outer.scopes, 0⟩ = .ok (piece, after) := run
  obtain ⟨statements, behind, here, there⟩ := run_bind_eq_ok_iff.1 inside
  obtain ⟨high, -, made, -⟩ := rules.statements {} (ascends_inside ascending stacked _ _) here
  have code : (Node.code pos statements).Fits pos.line high := .of (Nat.le_refl _) made rfl
  have close {last : State} (run : StateT.run (do
      modify fun inner => { outer with scopes := inner.scopes }
      return Piece.code pos statements : Parser (Piece Node)) last = .ok (piece, after)) :
      ∃ high, low ≤ high ∧ CodeBelow start [piece] ∧ after.Ascends high := by
    obtain ⟨rfl, rfl⟩ := Prod.mk.inj (Except.ok.inj run)
    refine ⟨low, Nat.le_refl _, List.forall_mem_singleton.2 ⟨below, code.laid⟩, ?_⟩
    exact ascends.left (List.suffix_refl _) rfl
  obtain ⟨stop, last, -, there⟩ := run_bind_eq_ok_iff.1 there
  cases stop with
  | true => exact close there
  | false =>
    obtain ⟨_, last, _, there⟩ := run_bind_eq_ok_iff.1 there
    exact close there

theorem proceeds_hashKey : Proceeds low (hashKey parse) (Node.Fits low) := by
  refine .look fun token le _ => ?_
  cases token.lexeme with
  | label name => exact .after fun _ => .after fun _ => .pure (.leaf le (Nat.le_refl _) rfl)
  | _ =>
    exact (rules.expression.below le).bind fun _ _ _ key => .after fun _ => .after fun _ => .after fun _ => .pure key

theorem proceeds_pairs : Proceeds low (pairs parse) fun high found => Stretch low high (sides found) := by
  refine .after fun _ => .ite (.pure (.nil (Nat.le_refl _))) ?_
  refine (proceeds_hashKey rules).bind fun _ _ _ key => rules.expression.bind fun _ _ _ value => .after fun _ => ?_
  refine .after fun _ => .ite (.after fun _ => .after fun _ => ?_) (.pure (.cons key (.one value)))
  exact (rules.on low .pairs trivial).bind fun _ _ _ others => .pure (.cons key (.cons value others))

theorem proceeds_hash : Proceeds low (hash parse) (Node.Fits low) := by
  refine .read fun _ le _ => .enclosed (.after fun _ => (rules.on low .pairs trivial).bind fun _ _ _ made => ?_)
  exact .after fun _ => .pure (.of le made rfl)

/-! Keywords -/

theorem proceeds_elseClause : Proceeds low (elseClause parse) fun high found => Stretch low high found.toList := by
  refine .look fun _ le _ => .ite (.after fun _ => ?_) (.pure (.nil le))
  exact (rules.statements _).bind fun _ _ _ made => .pure (.one (.of le made rfl))

theorem proceeds_branch : Proceeds low (branch parse) (Node.Fits low) := by
  refine .read fun token le _ => rules.connective.bind fun _ cond _ made => .after fun _ =>
    (rules.statements _).bind fun _ statements _ body => ?_
  refine .after fun _ => .ite ?_ ?_
  · exact rules.branch.bind fun _ _ _ last => .pure (.of le ((Stretch.cons made body).append (.one last)) rfl)
  · exact (proceeds_elseClause rules).bind fun _ _ _ last => .after fun _ =>
      .pure (.of le ((Stretch.cons made body).append last) rfl)

theorem proceeds_loopBody : Proceeds low (loopBody parse) (Stretch low) :=
  .after fun _ => (rules.statements _).bind fun _ _ _ made => .after fun _ => .pure made

theorem proceeds_loop (polarity : Polarity) : Proceeds low (loop parse polarity) (Node.Fits low) :=
  .read fun _ le _ => rules.connective.leavingDo.bind fun _ _ _ made => (proceeds_loopBody rules).bind fun _ _ _ body =>
    .pure (.of le (.cons made body) rfl)

theorem proceeds_forLoop : Proceeds low (forLoop parse) (Node.Fits low) := by
  refine .read fun _ le _ => (rules.on low .targets trivial).bind fun _ _ le' _ => .after fun _ => .after fun _ => ?_
  exact rules.connective.leavingDo.bind fun _ _ _ made => (proceeds_loopBody rules).bind fun _ _ _ body =>
    .pure (.of le (.cons (made.below le') body) rfl)

theorem proceeds_whens : Proceeds low (whens parse) (Stretch low) := by
  refine .look fun token le _ => .ite (.after fun _ => ?_) (.pure (.nil le))
  refine (proceeds_argumentList rules none).bind fun _ _ _ made => .after fun _ =>
    (rules.statements _).bind fun _ _ _ body => ?_
  exact (rules.on low .whens trivial).bind fun _ _ _ others =>
    .pure (.cons (.listing le (made.append body.loose) rfl nofun) others)

theorem proceeds_caseOf : Proceeds low (caseOf parse) (Node.Fits low) := by
  refine .read fun token le _ => .after fun _ => ?_
  have close {mid : Nat} {subject : Option Node} (made : Stretch token.pos.line mid subject.toList) : Proceeds mid
      (do skipSeparators
          let clauses ← parse .whens
          if clauses.isEmpty then complain .expectedWhen
          let orelse ← elseClause parse
          consumeWord "end"
          return Node.caseOf token.pos subject clauses orelse) (Node.Fits low) := by
    refine .after fun _ => (rules.on low .whens trivial).bind fun mid' clauses _ tests => ?_
    have rest : Proceeds mid'
        (do let orelse ← elseClause parse
            consumeWord "end"
            return Node.caseOf token.pos subject clauses orelse) (Node.Fits low) :=
      (proceeds_elseClause rules).bind fun _ _ _ last => .after fun _ =>
        .pure (.of le ((made.append tests).append last) rfl)
    exact .ite (.after fun _ => rest) rest
  exact .ite (Proceeds.none.bind fun _ _ _ made => close made) (rules.connective.some.bind fun _ _ _ made => close made)

theorem proceeds_beginBlock : Proceeds low (beginBlock parse) (Node.Fits low) := by
  refine .read fun token le _ => (proceeds_body rules (Nat.le_refl _)).bind fun high statements _ made =>
    .after fun _ => ?_
  split
  · exact .pure ((made.fits _ (List.mem_singleton_self _)).below le)
  · have none : Stretch high high [] := .nil (Nat.le_refl high)
    exact .pure (.of le (((made.append none).append none).append none) rfl)

theorem proceeds_jump (word : String) : Proceeds low (jump parse word) (Node.Fits low) := by
  refine .read fun _ le _ => .after fun _ => .ite ?_ ?_
  · exact rules.expression.some.bind fun _ _ _ made => .pure (.of le made rfl)
  · exact Proceeds.none.bind fun _ _ _ made => .pure (.of le made rfl)

theorem proceeds_keywordCall (word : String) : Proceeds low (keywordCall parse word) (Node.Fits low) := by
  refine .read fun token le _ => .after fun _ => .after fun _ => .ite (.after fun _ => ?_) (.ite ?_ ?_)
  · exact (proceeds_delimitedArguments rules .round).bind fun _ _ _ made => .pure (.listing le made rfl nofun)
  · exact (proceeds_argumentList rules none).leavingDo.bind fun _ _ _ made => .pure (.listing le made rfl nofun)
  · exact Proceeds.empty.bind fun _ _ _ made =>
      .pure (.of le made rfl)

theorem proceeds_params (parenthesized : Bool) : Proceeds low (params parse parenthesized) fun _ _ => True := by
  refine .after fun _ => .ite (.quiet _) (.after fun token => ?_)
  have more {mid : Nat} (name : String) :
      Proceeds mid (do return name :: (← parse (.params parenthesized))) fun _ _ => True :=
    (rules.on low (.params parenthesized) trivial).bind fun _ _ _ _ => .pure trivial
  have skipped : Proceeds low (discard (parse .choice)) fun _ _ => True :=
    rules.choice.map fun _ _ _ _ => trivial
  cases token.lexeme with
  | identifier name =>
    exact .after fun _ => .after fun _ => .ite (.after fun _ => skipped.bind fun _ _ _ _ => more name) (more name)
  | label name => exact .after fun _ => .after fun _ => .ite (skipped.bind fun _ _ _ _ => more name) (more name)
  | operator op =>
    refine .ite (.after fun next => ?_) (.quiet _)
    cases next.lexeme with
    | identifier name => exact .after fun _ => .after fun _ => more name
    | _ => exact rules.on low (.params parenthesized) trivial
  | comma => exact rules.on low (.params parenthesized) trivial
  | _ => exact .quiet _

theorem proceeds_blockNames : Proceeds low (blockNames parse) fun _ _ => True := by
  refine .after fun _ => .ite (.quiet _) (.after fun token => ?_)
  have more (name : String) : Proceeds low (do return name :: (← parse .blockNames)) fun _ _ => True :=
    (rules.on low .blockNames trivial).bind fun _ _ _ _ => .pure trivial
  cases token.lexeme with
  | identifier name | label name => exact more name
  | operator op =>
    refine .after fun next => ?_
    cases next.lexeme with
    | identifier name => exact .ite (.after fun _ => more name) (.quiet _)
    | _ => exact .quiet _
  | comma => exact rules.on low .blockNames trivial
  | opening bracket | closing bracket =>
    cases bracket with
    | round => exact rules.on low .blockNames trivial
    | _ => exact .quiet _
  | _ => exact .quiet _

theorem proceeds_targets : Proceeds low (targets parse) fun _ _ => True :=
  .after fun _ => .after fun _ =>
    .ite (.after fun _ => (rules.on low .targets trivial).bind fun _ _ _ _ => .pure trivial) (.quiet _)

theorem proceeds_constantNames : Proceeds low (constantNames parse) fun _ _ => True :=
  .after fun _ => .after fun _ =>
    .ite (.after fun _ => (rules.on low .constantNames trivial).bind fun _ _ _ _ => .pure trivial) (.quiet _)

theorem proceeds_constantName : Proceeds low (constantName parse) fun _ _ => True :=
  (rules.on low .constantNames trivial).bind fun _ _ _ _ => .pure trivial

theorem proceeds_methodParams : Proceeds low (methodParams parse) fun _ _ => True :=
  .after fun parenthesized => .ite (.after fun _ => rules.on low (.params parenthesized) trivial)
    (rules.on low (.params parenthesized) trivial)

theorem proceeds_methodDef : Proceeds low (methodDef parse) (Node.Fits low) :=
  .read fun _ le _ => .after fun _ => .inScope <| .enclosed <|
    (proceeds_methodParams rules).bind fun _ _ le' _ => (proceeds_body rules le').bind fun _ _ _ made =>
      .after fun _ => .pure (.of le made rfl)

theorem proceeds_definitionBody : Proceeds low (definitionBody parse) (Stretch low) :=
  .inScope ((rules.statements _).bind fun _ _ _ made => .after fun _ => .pure made)

theorem proceeds_classDef : Proceeds low (classDef parse) (Node.Fits low) := by
  refine .read fun token le _ => .after fun _ => ?_
  have close (name : String) {mid : Nat} {superclass : Option Node}
      (made : Stretch token.pos.line mid superclass.toList) :
      Proceeds mid (do return .classDef token.pos name superclass (← definitionBody parse)) (Node.Fits low) :=
    (proceeds_definitionBody rules).bind fun _ _ _ body => .pure (.of le (made.append body) rfl)
  have rest : Proceeds token.pos.line
      (do let name ← constantName parse
          let superclass ←
            if ← check (·.isOperator "<") then do
              discard advance
              some <$> parse .expression
            else pure none
          return Node.classDef token.pos name superclass (← definitionBody parse)) (Node.Fits low) := by
    refine (proceeds_constantName rules).bind fun _ name le' _ => .after fun _ => .ite (.after fun _ => ?_) ?_
    · exact rules.expression.some.bind fun _ _ _ made => close name (made.below le')
    · exact Proceeds.none.bind fun _ _ _ made => close name (made.below le')
  exact .ite (.after fun _ => rest) rest

theorem proceeds_moduleDef : Proceeds low (moduleDef parse) (Node.Fits low) :=
  .read fun _ le _ => (proceeds_constantName rules).bind fun _ _ le' _ =>
    (proceeds_definitionBody rules).bind fun _ _ _ made => .pure (.of le (made.below le') rfl)

theorem proceeds_keyword {token : Token} (le : start ≤ token.pos.line) (word : String) :
    Proceeds token.pos.line (keyword parse token word) (Node.Fits start) := by
  unfold keyword
  split
  case h_6 | h_7 => exact rules.branch.below le
  case h_8 | h_9 => exact (proceeds_loop rules _).below le
  case h_10 => exact (proceeds_forLoop rules).below le
  case h_11 => exact (proceeds_caseOf rules).below le
  case h_12 => exact (proceeds_beginBlock rules).below le
  case h_13 => exact (proceeds_methodDef rules).below le
  case h_14 => exact (proceeds_classDef rules).below le
  case h_15 => exact (proceeds_moduleDef rules).below le
  case h_16 | h_17 | h_18 => exact (proceeds_jump rules _).below le
  case h_19 | h_20 => exact (proceeds_keywordCall rules _).below le
  case h_21 => exact .after fun _ => rules.expression.bind fun _ _ _ made => .pure (.of le (.one made) rfl)
  case h_22 => exact .complain
  all_goals exact .after fun _ => .pure (.leaf le (Nat.le_refl _) rfl)

theorem proceeds_primary : Proceeds low (primary parse) (Node.Fits low) := by
  refine .look fun token le stacked => ?_
  have coded := codedBelow_of_stacked stacked
  have bare : Stretch token.pos.line token.pos.line (none : Option Node).toList := .nil (Nat.le_refl _)
  have number {α : Type} (value : Except Text.NumberFault α) :
      Proceeds token.pos.line (fromNumber value) fun _ _ => True := by
    cases value with
    | ok value => exact .quiet (pure value)
    | error fault => exact .throw
  have items {α : Type} {node : α → Node} (list : List α) (here : ∀ item, (node item).line = token.pos.line)
      (plain : ∀ item, (node item).constituents = []) :
      Stretch token.pos.line token.pos.line (list.map node) := by
    induction list with
    | nil => exact bare
    | cons item rest ih =>
      exact .cons (.leaf (Nat.le_of_eq (here item).symm) (Nat.le_of_eq (here item)) (plain item)) ih
  dsimp only
  cases lexeme : token.lexeme with
  | integer digits => exact .after fun _ => (number _).bind fun _ _ le' _ => .pure (.leaf le le' rfl)
  | float digits => exact .after fun _ => (number _).bind fun _ _ le' _ => .pure (.leaf le le' rfl)
  | string segments =>
    rw [lexeme] at coded
    exact .after fun _ => proceeds_stringLiteral rules le (Nat.le_refl _) coded
  | shell segments =>
    rw [lexeme] at coded
    exact .after fun _ => (proceeds_pieces rules coded).bind fun _ _ le' made => .pure (.coded le le' made rfl)
  | regexp source flags => exact .after fun _ => .pure (.leaf le (Nat.le_refl _) rfl)
  | symbol name => exact .after fun _ => .pure (.leaf le (Nat.le_refl _) rfl)
  | words list => exact .after fun _ => .pure (.of le (items list (fun _ => rfl) fun _ => rfl) rfl)
  | symbols list => exact .after fun _ => .pure (.of le (items list (fun _ => rfl) fun _ => rfl) rfl)
  | instanceVar name | globalVar name => exact .after fun _ => .pure (.leaf le (Nat.le_refl _) rfl)
  | constant name =>
    exact .after fun _ => .after fun _ => .ite (proceeds_callRest rules le bare) (.pure (.leaf le (Nat.le_refl _) rfl))
  | identifier name =>
    exact .after fun _ => .after fun _ => .after fun _ => .ite (.pure (.leaf le (Nat.le_refl _) rfl))
      (proceeds_callRest rules le bare)
  | keyword word => exact proceeds_keyword rules le word
  | opening bracket =>
    cases bracket with
    | round =>
      exact .after fun _ => .enclosed <| (rules.statements _).bind fun _ _ _ made => .after fun _ =>
        .pure (.of le made rfl)
    | square =>
      exact .after fun _ => (proceeds_delimitedArguments rules .square).bind fun _ _ _ made =>
        .pure (.listing le made rfl nofun)
    | curly => exact (proceeds_hash rules).below le
  | doubleColon => exact .after fun _ => .after fun _ => .pure (.leaf le (Nat.le_refl _) rfl)
  | operator spelling =>
    split
    all_goals first | contradiction | exact .complain
  | _ => exact .complain

theorem laid_step : LaidRules (step parse) := by
  constructor
  intro α start low rule given
  cases rule with
  | modifiers node => exact proceeds_modifiers rules given
  | connectiveRest left => exact proceeds_connectiveRest rules given
  | binaryRest least left => exact proceeds_binaryRest rules given
  | trailers base => exact proceeds_trailers rules given
  | code tokens pos => exact proceeds_embedded rules given.1 given.2.1 given.2.2
  | statements stop => exact proceeds_statements rules stop
  | statement => exact rules.connective.bind fun _ _ _ made => rules.modifiers made
  | connective => exact rules.negation.bind fun _ _ _ made => rules.connectiveRest made
  | negation => exact proceeds_negation rules
  | expression => exact proceeds_expression rules
  | choice => exact proceeds_choice rules
  | binary least => exact rules.unary.bind fun _ _ _ made => rules.binaryRest made
  | unary => exact proceeds_unary rules
  | operand => exact (proceeds_primary rules).bind fun _ _ _ made => rules.trailers made
  | arguments closer named => exact proceeds_arguments rules closer named
  | adjacent => exact proceeds_adjacent rules
  | pairs => exact proceeds_pairs rules
  | blockNames => exact proceeds_blockNames rules
  | params parenthesized => exact proceeds_params rules parenthesized
  | branch => exact proceeds_branch rules
  | whens => exact proceeds_whens rules
  | rescues => exact proceeds_rescues rules
  | exceptions => exact proceeds_exceptions rules
  | targets => exact proceeds_targets rules
  | constantNames => exact proceeds_constantNames rules

theorem proceeds_program : Proceeds Position.origin.line (program parse) fun _ => Node.AllLaid := by
  refine (rules.statements _).bind fun high statements _ made => .after fun _ => ?_
  have whole : (Node.program .origin statements).Fits Position.origin.line high := .of (Nat.le_refl _) made rfl
  exact .ite (.after fun _ => .pure whole.laid) (.pure whole.laid)

omit rules in
theorem laid_rule (fuel : Nat) : LaidRules (rule fuel) := by
  induction fuel with
  | zero => exact ⟨fun _ _ _ _ => .after fun _ => .throw⟩
  | succ fuel ih => exact laid_step ih

end Formulary.Grammar

namespace Formulary

/-- In the tree of a recipe the lines are in order. -/
theorem laid_of_parseRecipe {text : List Char} {program : Node} (read : parseRecipe text = .ok program) :
    program.AllLaid := by
  unfold parseRecipe at read
  split at read
  · rename_i tokens scanned
    obtain ⟨found, parsed, rfl⟩ := Result.map_eq_ok_iff.1 read
    have begun : (Grammar.start tokens).Ascends Position.origin.line :=
      Grammar.ascends_inside (Scan.ascending_tokensWithin scanned) (Scan.stacked_tokensWithin scanned) _ _
    obtain ⟨-, -, laid, -⟩ := Grammar.proceeds_program (Grammar.laid_rule _) begun parsed
    exact laid
  · contradiction

end Formulary
