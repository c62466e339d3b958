import Formulary.Proofs.Grammar.Delimited

/-!
Which call a block belongs to. In a chain of commands, each the last argument of the one before, a block between `do`
and `end` belongs to the first command and a block between braces to the last one. What stands between delimiters in
the arguments is read by the same rule, afresh.
-/

namespace Formulary.Grammar

open Filter (Eventually atTop)

/-- Arguments of a command, each with a comma behind it. -/
inductive Items : State → List Node → State → Prop
  | nil {state : State} : Items state [] state
  | cons {state mid after : State} {newlines tokens : List Token} {node : Node} {nodes : List Node} {pos : Position}
      {spaced : Bool} : Item state node (mid.on (⟨.comma, pos, spaced⟩ :: (newlines ++ tokens))) → Newlines newlines →
      (mid.on tokens).next.lexeme.isNewline = false → Items (mid.on tokens) nodes after →
      Items state (node :: nodes) after

/-- A command of a chain, with the arguments before the next command. -/
structure Link where
  name : String
  pos : Position
  args : List Node

/-- A chain of commands without parentheses, up to where a block may follow. Their names are no variables; each command
but the last one has the next one as its last argument. -/
inductive Chain : State → Link → List Link → State → Prop
  /-- A last command without arguments. -/
  | bare {state : State} {tokens : List Token} {name : String} {pos : Position} {spaced : Bool} :
      Scope.isLocal name state.scopes = false → beginsArgument (state.on tokens).next.lexeme = false →
      bindsArgument (state.on tokens).next.lexeme = false →
      Chain (state.on (⟨.identifier name, pos, spaced⟩ :: tokens)) ⟨name, pos, []⟩ [] (state.on tokens)
  /-- A last command with arguments. -/
  | last {state mid after : State} {tokens : List Token} {name : String} {front : List Node} {node : Node}
      {pos : Position} {spaced : Bool} : Scope.isLocal name state.scopes = false →
      (state.on tokens).next.spaced = true → beginsArgument (state.on tokens).next.lexeme = true →
      Items ((state.on tokens).bar (state.barred + 1)) front mid → Item mid node after →
      Chain (state.on (⟨.identifier name, pos, spaced⟩ :: tokens)) ⟨name, pos, front ++ [node]⟩ []
        (after.bar state.barred)
  /-- A command whose last argument is a chain. -/
  | cons {state mid after : State} {tokens : List Token} {name : String} {front : List Node} {next : Link}
      {links : List Link} {pos : Position} {spaced : Bool} : Scope.isLocal name state.scopes = false →
      (state.on tokens).next.spaced = true → beginsArgument (state.on tokens).next.lexeme = true →
      Items ((state.on tokens).bar (state.barred + 1)) front mid → Chain mid next links after →
      Chain (state.on (⟨.identifier name, pos, spaced⟩ :: tokens)) ⟨name, pos, front⟩ (next :: links) after

/-- The tree of a chain with a block at the first or at the last command. -/
def commands (first last : Option Node) : Link → List Link → Node
  | link, [] => .call link.pos link.name none link.args (first.or last) false
  | link, next :: links => .call link.pos link.name none (link.args ++ [commands none last next links]) first false

/-- Whether a token goes on with the argument before it. -/
def goesWithArgument (token : Token) : Bool :=
  goesWithExpression token || token.lexeme.isComma || token.lexeme.isArrow

/-- Whether a token goes on with the command before it, unless it begins a block between `do` and `end`. -/
def goesWithCommand (token : Token) : Bool :=
  goesWithArgument token || token.lexeme.isOpening .curly

variable {state mid after : State} {node : Node} {nodes front : List Node} {tokens : List Token} {link : Link}
  {links : List Link}

theorem ends_of_argument {token : Token} (h : goesWithArgument token = false) :
    goesWithExpression token = false ∧ token.lexeme.isComma = false ∧ token.lexeme.isArrow = false := by
  simpa only [goesWithArgument, Bool.or_eq_false_iff, and_assoc] using h

theorem ends_of_command {token : Token} (h : goesWithCommand token = false) :
    goesWithArgument token = false ∧ token.lexeme.isOpening .curly = false := by
  simpa only [goesWithCommand, Bool.or_eq_false_iff] using h

/-! Arguments -/

theorem Items.barred_eq (items : Items state nodes after) : after.barred = state.barred := by
  induction items with
  | nil => rfl
  | cons item _ _ _ ih => exact ih.trans item.barred_eq

theorem argument_plain {parse : Rules} (plain : beginsPlain state.next.lexeme = true)
    (read : (parse .expression).run state = .ok (node, after)) (arrow : after.next.lexeme.isArrow = false) :
    (argument parse false).run state = .ok (.inl node, after) := by
  rw [argument, run_bind_of_ok (run_peek state)]
  split
  case h_5 =>
    rw [run_bind_of_ok read, run_bind_of_ok (run_check after _), arrow]
    rfl
  all_goals
    rename_i here
    rw [here] at plain
    cases plain

/-- Arguments that items spell in front of a last one. -/
theorem arguments_of_items (items : Items state front mid) (waits : 0 < state.barred)
    (plain : beginsPlain mid.next.lexeme = true) (last : Parses .expression mid node after)
    (arrow : after.next.lexeme.isArrow = false) (comma : after.next.lexeme.isComma = false) :
    Parses (.arguments none false) state (front ++ [node], []) after := by
  induction items with
  | nil =>
    apply Parses.of_step
    filter_upwards [last.eventually] with fuel last
    change (arguments (rule fuel) none false).run _ = _
    rw [arguments, run_bind_of_ok (argument_plain plain last arrow), run_bind_of_ok (run_check after _), comma]
    rfl
  | cons item skipped stops items ih =>
    rename_i state mid after' newlines tokens node' nodes pos spaced
    have waits' : 0 < (mid.on tokens).barred := by
      rw [State.barred_on, ← State.barred_on mid, item.barred_eq]
      exact waits
    have first := item.expression waits (by cases spaced <;> rfl)
    have more := ih waits' plain last
    apply Parses.of_step
    filter_upwards [first.eventually, more.eventually] with fuel first more
    change (arguments (rule fuel) none false).run _ = _
    rw [arguments, run_bind_of_ok (argument_plain item.beginsPlain first rfl), run_bind_of_ok (run_check _ _)]
    refine (run_bind_of_ok (run_discard_on _ _ _) _).trans ?_
    refine (run_bind_of_ok (run_skipNewlines skipped stops) _).trans ?_
    change (rule fuel (.arguments none false) >>= fun found => pure (node' :: found.1, found.2)).run _ = _
    rw [run_bind_of_ok more]
    rfl

theorem bareArguments_of_items (spaced : state.next.spaced = true) (begins : beginsArgument state.next.lexeme = true)
    (items : Items (state.bar (state.barred + 1)) front mid) (plain : beginsPlain mid.next.lexeme = true)
    (last : Parses .expression mid node after) (stops : goesWithArgument after.next = false)
    (restored : after.barred = state.barred + 1) :
    Yields bareArguments state (front ++ [node]) (after.bar state.barred) := by
  obtain ⟨-, comma, arrow⟩ := ends_of_argument stops
  have read := arguments_of_items items (Nat.succ_pos _) plain last arrow comma
  filter_upwards [read.eventually] with fuel read
  have list : (argumentList (rule fuel) none).run (state.bar (state.barred + 1)) = .ok (front ++ [node], after) :=
    run_bind_of_ok read _
  have left := run_leavingDo_of_ok state list
  rw [restored] at left
  exact bareArguments_of_argument spaced begins left

/-! Commands -/

theorem Chain.beginsPlain (chain : Chain state link links mid) : beginsPlain state.next.lexeme = true := by
  cases chain <;> rfl

theorem Chain.barred_eq (chain : Chain state link links mid) : mid.barred = state.barred + links.length := by
  induction chain with
  | bare => rfl
  | last => rfl
  | cons hidden spaced begins items chain ih =>
    rw [ih, items.barred_eq, List.length_cons]
    exact Nat.add_right_comm _ _ _

theorem call_expression {name : String} {args : List Node} {block : Option Node} {pos : Position} {spaced : Bool}
    (hidden : Scope.isLocal name state.scopes = false)
    (paren : ((state.on tokens).next.lexeme.isOpening .round && !(state.on tokens).next.spaced) = false)
    (command : Yields bareArguments (state.on tokens) args mid) (follows : Yields blockOption mid block after)
    (ends : goesWithExpression after.next = false) :
    Parses .expression (state.on (⟨.identifier name, pos, spaced⟩ :: tokens)) (.call pos name none args block false)
      after := by
  have stays : Parses (.trailers (.call pos name none args block false)) after _ after :=
    trailers_of_not (goesWithOperand_of_expression ends)
  refine expression_of_operand_alone ?_ rfl ends
  apply Parses.of_step
  filter_upwards [command, follows, stays.eventually] with fuel command follows stays
  have primary : (primary (rule fuel)).run (state.on (⟨.identifier name, pos, spaced⟩ :: tokens)) =
      .ok (.call pos name none args block false, after) := by
    change (identifier (rule fuel) name pos).run (state.on tokens) = _
    rw [identifier, run_bind_of_ok (run_isLocal _ _), State.scopes_on, run_bind_of_ok (run_atCallParen _), hidden,
      Bool.false_and, if_neg Bool.false_ne_true]
    exact callRest_of_command paren command follows
  exact (run_bind_of_ok primary _).trans stays

theorem callParen_of_spaced (h : state.next.spaced = true) :
    (state.next.lexeme.isOpening .round && !state.next.spaced) = false := by
  rw [h, Bool.not_true, Bool.and_false]

theorem callParen_of_not_begins (h : beginsArgument state.next.lexeme = false) :
    (state.next.lexeme.isOpening .round && !state.next.spaced) = false := by
  have round : state.next.lexeme.isOpening .round = false := by
    cases here : state.next.lexeme with
    | opening bracket =>
      rw [here] at h
      cases bracket <;> first | rfl | cases h
    | _ => rfl
  rw [round, Bool.false_and]

/-- A chain of commands that leave a `do` behind them to something outside: what follows the last one belongs to it. -/
theorem Chain.expression {block : Option Node} (chain : Chain state link links mid)
    (stops : goesWithArgument mid.next = false) (follows : Yields blockOption mid block after)
    (restored : after.barred = mid.barred) (ends : goesWithCommand after.next = false)
    (left : after.next.lexeme.isKeyword "do" = false ∨ 0 < state.barred) :
    Parses .expression state (commands none block link links) (after.bar state.barred) := by
  obtain ⟨argument, brace⟩ := ends_of_command ends
  have expression := (ends_of_argument argument).1
  induction chain with
  | bare hidden begins binds =>
    rename_i state tokens name pos spaced
    have command : Yields bareArguments (state.on tokens) [] (state.on tokens) :=
      Filter.Eventually.of_forall fun fuel => bareArguments_none begins binds
    have same : after.bar state.barred = after := by
      rw [← State.barred_on state tokens, ← restored]
      rfl
    rw [State.barred_on, same]
    exact call_expression hidden (callParen_of_not_begins begins) command follows expression
  | last hidden spaced begins items item =>
    rename_i state mid after' tokens name front node pos spaced'
    have waits : 0 < mid.barred := by
      rw [items.barred_eq]
      exact Nat.succ_pos _
    have same : after.bar state.barred = after := by
      rw [← State.barred_bar after' state.barred, ← restored]
      rfl
    have last := item.expression waits (ends_of_argument stops).1
    have command := bareArguments_of_items spaced begins items item.beginsPlain last stops
      (item.barred_eq.trans items.barred_eq)
    rw [State.barred_on, same]
    exact call_expression hidden (callParen_of_spaced spaced) command follows expression
  | cons hidden spaced begins items chain ih =>
    rename_i state mid after' tokens name front next links pos spaced'
    have deeper : mid.barred = state.barred + 1 := items.barred_eq
    have last := ih stops follows restored (.inr (deeper ▸ Nat.succ_pos _))
    have command := bareArguments_of_items spaced begins items chain.beginsPlain last argument deeper
    refine call_expression hidden (callParen_of_spaced spaced) command ?_ expression
    exact Filter.Eventually.of_forall fun fuel => run_blockOption_none brace left

theorem next_of_do (block : DoBlock state node after) : state.next.lexeme = .keyword "do" := by
  cases block
  rfl

theorem goesWithCommand_keyword {token : Token} {word : String} (h : token.lexeme = .keyword word) :
    goesWithCommand token = false := by
  obtain ⟨lexeme, pos, spaced⟩ := token
  obtain rfl : lexeme = .keyword word := h
  cases spaced <;> rfl

theorem goesWithArgument_brace {token : Token} (h : token.lexeme = .opening .curly) :
    goesWithArgument token = false := by
  obtain ⟨lexeme, pos, spaced⟩ := token
  obtain rfl : lexeme = .opening .curly := h
  cases spaced <;> rfl

/-- A block between `do` and `end` behind a chain of commands belongs to the first one. -/
theorem Chain.expression_do {block : Node} (chain : Chain state link links mid) (free : state.barred = 0)
    (attached : DoBlock (mid.bar 0) block after) (ends : goesWithExpression after.next = false) :
    Parses .expression state (commands (some block) none link links) after := by
  have word : mid.next.lexeme = .keyword "do" := (next_of_do attached : (mid.bar 0).next.lexeme = _)
  have stops := goesWithCommand_keyword word
  obtain ⟨argument, brace⟩ := ends_of_command stops
  have follows := attached.blockOption rfl
  cases chain with
  | bare hidden begins binds =>
    rename_i state tokens name pos spaced
    have command : Yields bareArguments (state.on tokens) [] (state.on tokens) :=
      Filter.Eventually.of_forall fun fuel => bareArguments_none begins binds
    have same : (state.on tokens).bar 0 = state.on tokens := by
      rw [← free]
      rfl
    rw [same] at follows
    exact call_expression hidden (callParen_of_not_begins begins) command follows ends
  | last hidden spaced begins items item =>
    rename_i state mid after' tokens name front node pos spaced'
    have waits : 0 < mid.barred := by
      rw [items.barred_eq]
      exact Nat.succ_pos _
    have last := item.expression waits (ends_of_argument argument).1
    have command := bareArguments_of_items spaced begins items item.beginsPlain last argument
      (item.barred_eq.trans items.barred_eq)
    have same : (state.on tokens).barred = 0 := free
    rw [same] at command
    exact call_expression hidden (callParen_of_spaced spaced) command follows ends
  | cons hidden spaced begins items chain =>
    rename_i state mid' tokens name front next links pos spaced'
    have deeper : mid'.barred = state.barred + 1 := items.barred_eq
    have waits : 0 < mid.barred := by
      rw [chain.barred_eq, deeper]
      omega
    have passed : Yields blockOption mid none mid :=
      Filter.Eventually.of_forall fun fuel => run_blockOption_none brace (.inr waits)
    have last := chain.expression argument passed rfl stops (.inr (deeper ▸ Nat.succ_pos _))
    have command := bareArguments_of_items spaced begins items chain.beginsPlain last argument deeper
    have same : (state.on tokens).barred = 0 := free
    rw [same] at command
    exact call_expression hidden (callParen_of_spaced spaced) command follows ends

/-- Where no call or loop outside waits for a `do`, a block between `do` and `end` behind a chain of commands belongs to
the first command and a block between braces to the last one, and no other command has a block. -/
theorem blocks_bind (chain : Chain state link links mid) (free : state.barred = 0) :
    (∀ block after, DoBlock (mid.bar 0) block after → goesWithExpression after.next = false →
      Parses .expression state (commands (some block) none link links) after ∧
      (goesWithStatement after.next.lexeme = false →
        Parses .statement state (commands (some block) none link links) after)) ∧
    (∀ block after, BraceBlock mid block after → goesWithCommand after.next = false →
      after.next.lexeme.isKeyword "do" = false →
      Parses .expression state (commands none (some block) link links) (after.bar 0) ∧
      (goesWithStatement after.next.lexeme = false →
        Parses .statement state (commands none (some block) link links) (after.bar 0))) := by
  have begins : state.next.lexeme.isKeyword "not" = false := by
    cases chain <;> rfl
  constructor
  · intro block after attached ends
    have read := chain.expression_do free attached ends
    exact ⟨read, statement_of_expression read begins⟩
  · intro block after attached ends word
    have stops := goesWithArgument_brace (next_of_brace attached)
    have read := chain.expression stops attached.blockOption attached.barred_eq ends (.inl word)
    rw [free] at read
    exact ⟨read, statement_of_expression read begins⟩

/-- A chain in the arguments of a chain, between parentheses: the inner block belongs to the first inner command and the
outer block to the first outer one. -/
theorem blocks_bind_nested :
    let state : State := ⟨[], ⟨.endOfText, .origin, true⟩, [⟨true, []⟩], 0⟩
    let name (text : String) : Token := ⟨.identifier text, .origin, true⟩
    let sign (lexeme : Lexeme Token) : Token := ⟨lexeme, .origin, true⟩
    let block := [sign (.keyword "do"), sign (.keyword "end")]
    let inside := [name "baz", name "qux"] ++ block
    let tokens := sign (.opening .round) :: (inside ++ sign (.closing .round) :: block)
    let node : Node := .block .origin [] [] false
    let inner : Node := .call .origin "baz" none [.call .origin "qux" none [] none false] (some node) false
    let outer : Node := .call .origin "foo" none
      [.int .origin 1, .call .origin "bar" none [.paren .origin [inner]] none false] (some node) false
    Parses .statement (state.on ([name "foo", sign (.integer "1"), sign .comma, name "bar"] ++ tokens)) outer
      (state.on []) := by
  intro state name sign block inside tokens node inner outer
  have one : Item ((state.bar 1).on (sign (.integer "1") :: sign .comma :: name "bar" :: tokens)) (.int .origin 1)
      ((state.bar 1).on (sign .comma :: ([] ++ name "bar" :: tokens))) :=
    @Item.integer (state.bar 1) _ "1" 1 _ _ rfl
  have items : Items ((state.bar 1).on (sign (.integer "1") :: sign .comma :: name "bar" :: tokens)) [.int .origin 1]
      ((state.bar 1).on (name "bar" :: tokens)) :=
    .cons one nofun rfl .nil
  have paren : Item ((state.bar 2).on tokens) (.paren .origin [inner]) ((state.bar 2).on block) :=
    @Item.paren (state.bar 2) state _ _ _ _ _ _ _ ⟨20, rfl⟩
  have bar : Chain ((state.bar 1).on (name "bar" :: tokens)) ⟨"bar", .origin, [.paren .origin [inner]]⟩ []
      ((state.bar 1).on block) :=
    @Chain.last (state.bar 1) _ _ tokens "bar" [] _ _ _ rfl rfl rfl .nil paren
  have chain : Chain (state.on ([name "foo", sign (.integer "1"), sign .comma, name "bar"] ++ tokens))
      ⟨"foo", .origin, [.int .origin 1]⟩ [⟨"bar", .origin, [.paren .origin [inner]]⟩] ((state.bar 1).on block) :=
    .cons rfl rfl rfl items bar
  have params : Yields blockParams ((state.on [sign (.keyword "end")]).enter false) []
      ((state.on [sign (.keyword "end")]).enter false) :=
    Filter.Eventually.of_forall fun fuel => rfl
  have statements : Yields (body · .origin) ((state.on [sign (.keyword "end")]).enter false) []
      ((state.enter false).on [sign (.keyword "end")]) := by
    filter_upwards [Filter.eventually_ge_atTop 2] with fuel enough
    obtain ⟨more, rfl⟩ := Nat.exists_eq_add_of_le' enough
    rfl
  have attached : DoBlock (((state.bar 1).on block).bar 0) node (state.on []) :=
    @DoBlock.intro state _ (state.enter false) _ _ _ _ _ _ _ _ params statements
  have ends : goesWithExpression (state.on []).next = false := rfl
  exact ((blocks_bind chain rfl).1 node _ attached ends).2 rfl

/-- In the arguments of a command the rule starts afresh in the body of a definition, but not between `begin` and `end`:
there each `do` is left to that command, which cannot have it. -/
theorem exists_block_refused :
    (parseRecipe "foo 1, begin\n  bar do\n  end\nend".toList).toOption.isNone = true ∧
      (parseRecipe "foo 1, def x\n  bar do\n  end\nend".toList).toOption.isSome = true := by
  decide +kernel

end Formulary.Grammar
