import Formulary.Proofs.Grammar.Ends

/-!
What stands between delimiters. Inside brackets, blocks and definitions a `do` belongs to the nearest call again, so what
they hold is read as if no call outside were waiting for one.
-/

namespace Formulary.Grammar

open Filter (Eventually atTop)

variable {α : Type}

namespace State

variable (state : State)

/-- The state inside a new scope, where no call outside waits for a `do`. -/
def enter (hard : Bool) : State :=
  { state with scopes := ⟨hard, []⟩ :: state.scopes, barred := 0 }

/-- The state outside the innermost scope, where calls may wait for a `do` again. -/
def leave (barred : Nat) : State :=
  { state with scopes := state.scopes.tail, barred }

end State

/-- What a construct reads when calls may go as deep as they must. -/
def Yields (construct : Rules → Parser α) (state : State) (value : α) (after : State) : Prop :=
  ∀ᶠ fuel in atTop, (construct (rule fuel)).run state = .ok (value, after)

theorem run_consume_of {test : Lexeme Token → Bool} {token : Token} (h : test token.lexeme = true)
    (complaint : Complaint) (state : State) (rest : List Token) :
    (consume test complaint).run (state.on (token :: rest)) = .ok ((), state.on rest) := by
  rw [consume, run_bind_of_ok (run_check _ test), State.next_on_cons, h]
  rfl

theorem run_enclosed_of_ok {p : Parser α} {state after : State} {value : α}
    (h : p.run (state.bar 0) = .ok (value, after)) :
    (enclosed p).run state = .ok (value, after.bar state.barred) := by
  rw [enclosed, run_bind_of_ok (run_get state), run_bind_of_ok (run_modify state _)]
  exact run_bind_of_ok h _

theorem run_scoped_of_ok {p : Parser α} {hard : Bool} {state after : State} {value : α}
    (h : p.run (state.enter hard) = .ok (value, after)) :
    (inScope hard (enclosed p)).run state = .ok (value, after.leave state.barred) := by
  rw [inScope, run_bind_of_ok (run_modify state _)]
  exact run_bind_of_ok (run_enclosed_of_ok h) _

/-! Delimiters -/

/-- Arguments up to a closing bracket. -/
inductive Delimited (closer : Bracket) : State → List Node → State → Prop
  | empty {state : State} {newlines rest : List Token} {pos : Position} {spaced : Bool} : Newlines newlines →
      Delimited closer (state.on (newlines ++ ⟨.closing closer, pos, spaced⟩ :: rest)) [] (state.on rest)
  | filled {state last : State} {newlines newlines' tokens rest : List Token} {args : List Node} {pos : Position}
      {spaced : Bool} : Newlines newlines → (state.on tokens).next.lexeme.isNewline = false →
      (state.on tokens).next.lexeme.isClosing closer = false →
      Yields (argumentList · (some closer)) ((state.on tokens).bar 0) args
        (last.on (newlines' ++ ⟨.closing closer, pos, spaced⟩ :: rest)) → Newlines newlines' →
      Delimited closer (state.on (newlines ++ tokens)) args ((last.on rest).bar state.barred)

/-- A block between braces. -/
inductive BraceBlock : State → Node → State → Prop
  | intro {state inner last : State} {tokens rest : List Token} {params : List String} {statements : List Node}
      {pos pos' : Position} {spaced spaced' : Bool} : Yields blockParams ((state.on tokens).enter false) params inner →
      Parses (.statements ⟨[], some .curly⟩) inner statements (last.on (⟨.closing .curly, pos', spaced'⟩ :: rest)) →
      BraceBlock (state.on (⟨.opening .curly, pos, spaced⟩ :: tokens)) (.block pos params statements true)
        ((last.on rest).leave state.barred)

/-- A block between `do` and `end`. -/
inductive DoBlock : State → Node → State → Prop
  | intro {state inner last : State} {tokens rest : List Token} {params : List String} {statements : List Node}
      {pos pos' : Position} {spaced spaced' : Bool} : Yields blockParams ((state.on tokens).enter false) params inner →
      Yields (body · pos) inner statements (last.on (⟨.keyword "end", pos', spaced'⟩ :: rest)) →
      DoBlock (state.on (⟨.keyword "do", pos, spaced⟩ :: tokens)) (.block pos params statements false)
        ((last.on rest).leave state.barred)

/-- The block of a call that leaves a `do` to a call outside. -/
inductive Attached : State → Option Node → State → Prop
  | none {state : State} : state.next.lexeme.isOpening .curly = false → Attached state none state
  | some {state after : State} {block : Node} : BraceBlock state block after → Attached state (some block) after

/-- An argument that is a literal, or a construct between delimiters: brackets, a hash, a definition, or a call with
parentheses or with a block of its own. -/
inductive Item : State → Node → State → Prop
  | integer {state : State} {tokens : List Token} {digits : String} {value : Nat} {pos : Position} {spaced : Bool} :
      Text.integerLiteral digits = .ok value →
      Item (state.on (⟨.integer digits, pos, spaced⟩ :: tokens)) (.int pos value) (state.on tokens)
  | symbol {state : State} {tokens : List Token} {name : String} {pos : Position} {spaced : Bool} :
      Item (state.on (⟨.symbol name, pos, spaced⟩ :: tokens)) (.symbol pos name) (state.on tokens)
  | string {state after : State} {tokens : List Token} {segments : List (Segment Token)} {node : Node} {pos : Position}
      {spaced : Bool} : Yields (stringLiteral · pos segments) ((state.on tokens).bar 0) node after →
      Item (state.on (⟨.string segments, pos, spaced⟩ :: tokens)) node (after.bar state.barred)
  | paren {state last : State} {tokens rest : List Token} {statements : List Node} {pos pos' : Position}
      {spaced spaced' : Bool} : Parses (.statements ⟨[], some .round⟩) ((state.on tokens).bar 0) statements
        (last.on (⟨.closing .round, pos', spaced'⟩ :: rest)) →
      Item (state.on (⟨.opening .round, pos, spaced⟩ :: tokens)) (.paren pos statements)
        ((last.on rest).bar state.barred)
  | array {state after : State} {tokens : List Token} {elements : List Node} {pos : Position} {spaced : Bool} :
      Delimited .square (state.on tokens) elements after →
      Item (state.on (⟨.opening .square, pos, spaced⟩ :: tokens)) (.array pos elements) after
  | hash {state last : State} {newlines tokens rest : List Token} {pairs : List (Node × Node)} {pos pos' : Position}
      {spaced spaced' : Bool} : Newlines newlines → (state.on tokens).next.lexeme.isNewline = false →
      Parses .pairs ((state.on tokens).bar 0) pairs (last.on (⟨.closing .curly, pos', spaced'⟩ :: rest)) →
      Item (state.on (⟨.opening .curly, pos, spaced⟩ :: (newlines ++ tokens))) (.hash pos pairs true)
        ((last.on rest).bar state.barred)
  | methodDef {state inner last : State} {tokens tokens' rest : List Token} {name : String} {singleton : Bool}
      {params : List String} {statements : List Node} {pos pos' : Position} {spaced spaced' : Bool} :
      methodHead.run (state.on tokens) = .ok ((name, singleton), state.on tokens') →
      Yields methodParams ((state.on tokens').enter true) params inner →
      Yields (body · pos) inner statements (last.on (⟨.keyword "end", pos', spaced'⟩ :: rest)) →
      Item (state.on (⟨.keyword "def", pos, spaced⟩ :: tokens)) (.methodDef pos name params statements singleton)
        ((last.on rest).leave state.barred)
  | call {state mid after : State} {tokens : List Token} {name : String} {args : List Node} {block : Option Node}
      {pos pos' : Position} {spaced : Bool} : Delimited .round (state.on tokens) args mid → Attached mid block after →
      Item (state.on (⟨.identifier name, pos, spaced⟩ :: ⟨.opening .round, pos', false⟩ :: tokens))
        (.call pos name none args block true) after
  | blockCall {state after : State} {tokens : List Token} {name : String} {block : Node} {pos : Position}
      {spaced : Bool} : Scope.isLocal name state.scopes = false → BraceBlock (state.on tokens) block after →
      Item (state.on (⟨.identifier name, pos, spaced⟩ :: tokens)) (.call pos name none [] (some block) false) after

variable {state after : State} {closer : Bracket} {args : List Node} {block node : Node}

theorem Delimited.yields (h : Delimited closer state args after) :
    Yields (delimitedArguments · closer) state args after := by
  cases h with
  | empty skipped =>
    rename_i state newlines rest pos spaced
    have stops : ((state.bar 0).on (⟨.closing closer, pos, spaced⟩ :: rest)).next.lexeme.isNewline = false := rfl
    have closes : (Lexeme.closing closer : Lexeme Token).isClosing closer = true := decide_eq_true rfl
    refine Filter.Eventually.of_forall fun fuel => ?_
    refine @run_enclosed_of_ok _ _ (state.on _) ((state.bar 0).on rest) _ ?_
    rw [State.bar_on, run_bind_of_ok (run_skipNewlines skipped stops), run_bind_of_ok (run_check _ _),
      State.next_on_cons, closes]
    rfl
  | filled skipped stops inner args skipped' =>
    rename_i state last newlines newlines' tokens rest pos spaced
    have stops' : (last.on (⟨.closing closer, pos, spaced⟩ :: rest)).next.lexeme.isNewline = false := rfl
    have closes : (Lexeme.closing closer : Lexeme Token).isClosing closer = true := decide_eq_true rfl
    have opened : skipNewlines.run ((state.bar 0).on (newlines ++ tokens)) = .ok ((), (state.bar 0).on tokens) :=
      run_skipNewlines skipped stops
    filter_upwards [args] with fuel args
    refine run_enclosed_of_ok ?_
    rw [State.bar_on, run_bind_of_ok opened, run_bind_of_ok (run_check _ _)]
    have inside : ((state.bar 0).on tokens).next.lexeme.isClosing closer = false := inner
    rw [inside]
    refine (run_bind_of_ok args _).trans ?_
    rw [run_bind_of_ok (run_skipNewlines skipped' stops'), run_bind_of_ok (run_consume_of closes _ _ _)]
    rfl

theorem Delimited.barred_eq (h : Delimited closer state args after) : after.barred = state.barred := by
  cases h <;> rfl

theorem BraceBlock.yields (h : BraceBlock state block after) : Yields braceBlock state block after := by
  cases h with
  | intro params statements =>
    rename_i state inner last tokens rest names body pos pos' spaced spaced'
    filter_upwards [params, statements.eventually] with fuel params statements
    rw [braceBlock, run_bind_of_ok (run_advance_on _ _ _)]
    refine run_scoped_of_ok ?_
    rw [run_bind_of_ok params, run_bind_of_ok statements, run_bind_of_ok (run_consume_of (by rfl) _ _ _)]
    rfl

theorem BraceBlock.barred_eq (h : BraceBlock state block after) : after.barred = state.barred := by
  cases h
  rfl

theorem DoBlock.yields (h : DoBlock state block after) : Yields doBlock state block after := by
  cases h with
  | intro params statements =>
    rename_i state inner last tokens rest names body pos pos' spaced spaced'
    filter_upwards [params, statements] with fuel params statements
    rw [doBlock, run_bind_of_ok (run_advance_on _ _ _)]
    refine run_scoped_of_ok ?_
    rw [run_bind_of_ok params, run_bind_of_ok statements, run_bind_of_ok (run_consumeWord _ pos')]
    rfl

theorem run_blockOption_none {parse : Rules} (brace : state.next.lexeme.isOpening .curly = false)
    (left : state.next.lexeme.isKeyword "do" = false ∨ 0 < state.barred) :
    (blockOption parse).run state = .ok (none, state) := by
  have closed : (state.next.lexeme.isKeyword "do" && decide (state.barred = 0)) = false := by
    obtain word | waits := left
    · rw [word, Bool.false_and]
    · rw [decide_eq_false (Nat.ne_of_gt waits), Bool.and_false]
  rw [blockOption, run_bind_of_ok (run_peek state)]
  dsimp only
  rw [brace, if_neg Bool.false_ne_true, run_bind_of_ok (run_get state), closed]
  rfl

theorem BraceBlock.blockOption (h : BraceBlock state block after) :
    Yields blockOption state (some block) after := by
  filter_upwards [h.yields] with fuel read
  cases h
  rw [Grammar.blockOption, run_bind_of_ok (run_peek _), State.next_on_cons]
  exact run_bind_of_ok read _

theorem DoBlock.blockOption (h : DoBlock state block after) (free : state.barred = 0) :
    Yields blockOption state (some block) after := by
  have brace : (Lexeme.keyword "do" : Lexeme Token).isOpening .curly = false := rfl
  filter_upwards [h.yields] with fuel read
  cases h
  rw [Grammar.blockOption, run_bind_of_ok (run_peek _), State.next_on_cons]
  dsimp only
  rw [brace, if_neg Bool.false_ne_true, run_bind_of_ok (run_get _), decide_eq_true free]
  exact run_bind_of_ok read _

theorem Attached.blockOption {block : Option Node} (h : Attached state block after) (waits : 0 < state.barred) :
    Yields blockOption state block after := by
  cases h with
  | none brace => exact Filter.Eventually.of_forall fun fuel => run_blockOption_none brace (.inr waits)
  | some brace => exact brace.blockOption

theorem Attached.barred_eq {block : Option Node} (h : Attached state block after) : after.barred = state.barred := by
  cases h with
  | none => rfl
  | some brace => exact brace.barred_eq

/-! Strings -/

/-- A parser that reads the same, whoever waits for a `do`. -/
def Indifferent (p : Parser α) : Prop :=
  ∀ ⦃state after value⦄, p.run state = .ok (value, after) → ∀ barred,
    p.run (state.bar barred) = .ok (value, after.bar barred)

namespace Indifferent

variable {β : Type}

theorem pure (value : α) : Indifferent (Pure.pure value) := by
  intro state after value run barred
  cases run
  rfl

theorem bind {p : Parser α} {next : α → Parser β} (h : Indifferent p) (hnext : ∀ value, Indifferent (next value)) :
    Indifferent (p >>= next) := by
  intro state after result run barred
  obtain ⟨value, mid, first, second⟩ := run_bind_eq_ok_iff.1 run
  exact run_bind_eq_ok_iff.2 ⟨value, mid.bar barred, h first barred, hnext value second barred⟩

theorem peek : Indifferent peek := by
  intro state after value run barred
  cases run
  rfl

theorem discard_advance : Indifferent (discard advance) := by
  intro state after value run barred
  cases run
  rfl

theorem mapM {run : β → Parser α} (h : ∀ item, Indifferent (run item)) (items : List β) :
    Indifferent (items.mapM run) := by
  induction items with
  | nil => exact pure []
  | cons item rest ih =>
    rw [List.mapM_cons]
    exact (h item).bind fun _ => ih.bind fun _ => pure _

end Indifferent

theorem indifferent_embedded (parse : Rules) (tokens : List Token) (pos : Position) :
    Indifferent (embedded parse tokens pos) := by
  intro state after value run barred
  rw [embedded, run_bind_of_ok (run_get _)] at run ⊢
  obtain ⟨_, start, set, run⟩ := run_bind_eq_ok_iff.1 run
  cases set
  obtain ⟨statements, inner, read, run⟩ := run_bind_eq_ok_iff.1 run
  refine run_bind_eq_ok_iff.2 ⟨(), _, rfl, run_bind_eq_ok_iff.2 ⟨statements, inner, read, ?_⟩⟩
  rw [run_bind_of_ok (run_atStop inner _)] at run ⊢
  cases ends : Stop.meets {} inner.next.lexeme with
  | false =>
    rw [ends] at run
    cases run
  | true =>
    rw [ends] at run
    cases run
    rfl

theorem indifferent_code (fuel : Nat) (tokens : List Token) (pos : Position) :
    Indifferent (rule fuel (.code tokens pos)) := by
  cases fuel with
  | zero => exact fun state after value run => nomatch run
  | succ fuel => exact indifferent_embedded (rule fuel) tokens pos

theorem indifferent_pieces (fuel : Nat) (segments : List (Segment Token)) :
    Indifferent (pieces (rule fuel) segments) := by
  refine Indifferent.mapM (fun segment => ?_) segments
  cases segment with
  | text value => exact .pure _
  | code tokens pos => exact indifferent_code fuel tokens pos

theorem indifferent_adjacent (fuel : Nat) : Indifferent (rule fuel .adjacent) := by
  induction fuel with
  | zero => exact fun state after value run => nomatch run
  | succ fuel ih =>
    refine Indifferent.peek.bind fun token => ?_
    split
    · refine iteInduction (fun _ => ?_) fun _ => .pure _
      exact Indifferent.discard_advance.bind fun _ => (indifferent_pieces fuel _).bind fun _ => ih.bind fun _ => .pure _
    · exact .pure _

theorem indifferent_stringLiteral (fuel : Nat) (pos : Position) (segments : List (Segment Token)) :
    Indifferent (stringLiteral (rule fuel) pos segments) :=
  (indifferent_pieces fuel segments).bind fun _ => (indifferent_adjacent fuel).bind fun _ => .pure _

/-! Items -/

/-- The arguments of a call without parentheses, if there are any. -/
def bareArguments (parse : Rules) : Parser (List Node) := do
  if ← atArgument then commandArguments parse else return []

section Calls

variable {parse : Rules} {mid : State} {name : String} {receiver : Option Node} {attached : Option Node}

theorem callRest_of_parens {tokens : List Token} {pos pos' : Position}
    (inside : (delimitedArguments parse .round).run (state.on tokens) = .ok (args, mid))
    (follows : (blockOption parse).run mid = .ok (attached, after)) :
    (callRest parse name receiver pos).run (state.on (⟨.opening .round, pos', false⟩ :: tokens)) =
      .ok (.call pos name receiver args attached true, after) := by
  change (delimitedArguments parse .round >>= fun args => blockOption parse >>= fun block =>
    pure (Node.call pos name receiver args block true)).run (state.on tokens) = _
  rw [run_bind_of_ok inside, run_bind_of_ok follows]
  rfl

theorem callRest_of_command {pos : Position}
    (paren : (state.next.lexeme.isOpening .round && !state.next.spaced) = false)
    (command : (bareArguments parse).run state = .ok (args, mid))
    (follows : (blockOption parse).run mid = .ok (attached, after)) :
    (callRest parse name receiver pos).run state = .ok (.call pos name receiver args attached false, after) := by
  rw [bareArguments, run_bind_of_ok (run_atArgument state)] at command
  rw [callRest, run_bind_of_ok (run_atCallParen state), paren, run_bind_of_ok (run_atArgument state)]
  dsimp only
  rw [if_neg Bool.false_ne_true]
  split at command
  · rename_i argument
    rw [if_pos argument, run_bind_of_ok command, run_bind_of_ok follows]
    rfl
  · rename_i argument
    cases command
    rw [if_neg argument, pure_bind, run_bind_of_ok follows]
    rfl

theorem bareArguments_none (begins : beginsArgument state.next.lexeme = false)
    (binds : bindsArgument state.next.lexeme = false) : (bareArguments parse).run state = .ok ([], state) := by
  rw [bareArguments, run_bind_of_ok (run_atArgument state), begins, binds]
  simp only [Bool.false_and, Bool.or_self, Bool.and_false]
  rfl

theorem bareArguments_of_argument (spaced : state.next.spaced = true)
    (begins : beginsArgument state.next.lexeme = true)
    (command : (commandArguments parse).run state = .ok (args, mid)) :
    (bareArguments parse).run state = .ok (args, mid) := by
  rw [bareArguments, run_bind_of_ok (run_atArgument state), spaced, begins]
  exact command

end Calls

theorem next_of_brace (block : BraceBlock state node after) : state.next.lexeme = .opening .curly := by
  cases block
  rfl

/-- What an item reads does not hang on the number of calls that wait for a `do`, if there are any. -/
theorem Item.primary (item : Item state node after) (waits : 0 < state.barred) : Yields primary state node after := by
  cases item with
  | integer value =>
    rename_i state tokens digits value pos spaced
    refine Filter.Eventually.of_forall fun fuel => ?_
    change (fromNumber (Text.integerLiteral digits) >>= fun value => pure (Node.int pos value)).run (state.on tokens) = _
    rw [value]
    rfl
  | symbol => exact Filter.Eventually.of_forall fun fuel => rfl
  | string read =>
    rename_i state after tokens segments pos spaced
    filter_upwards [read] with fuel read
    change (stringLiteral (rule fuel) pos segments).run (state.on tokens) = _
    exact indifferent_stringLiteral fuel pos segments read state.barred
  | paren read =>
    rename_i state last tokens rest statements pos pos' spaced spaced'
    filter_upwards [read.eventually] with fuel read
    change (parenthesized (rule fuel) pos).run (state.on tokens) = _
    refine run_enclosed_of_ok ?_
    rw [run_bind_of_ok read, run_bind_of_ok (run_consume_of (by rfl) _ _ _)]
    rfl
  | array read =>
    rename_i state tokens elements pos spaced
    filter_upwards [read.yields] with fuel read
    change (Node.array pos <$> delimitedArguments (rule fuel) .square).run (state.on tokens) = _
    rw [StateT.run_map, read]
    rfl
  | hash skipped stops read =>
    rename_i state last newlines tokens rest pairs pos pos' spaced spaced'
    have opened : skipNewlines.run ((state.bar 0).on (newlines ++ tokens)) = .ok ((), (state.bar 0).on tokens) :=
      run_skipNewlines skipped stops
    filter_upwards [read.eventually] with fuel read
    change (Grammar.hash (rule fuel)).run _ = _
    rw [Grammar.hash, run_bind_of_ok (run_advance_on _ _ _)]
    refine run_enclosed_of_ok ?_
    rw [State.bar_on, run_bind_of_ok opened]
    refine (run_bind_of_ok read _).trans ?_
    rw [run_bind_of_ok (run_consume_of (by rfl) _ _ _)]
    rfl
  | methodDef head params statements =>
    rename_i state inner last tokens tokens' rest name singleton params statements pos pos' spaced spaced'
    filter_upwards [params, statements] with fuel params statements
    change (Grammar.methodDef (rule fuel)).run _ = _
    rw [Grammar.methodDef, run_bind_of_ok (run_advance_on _ _ _), run_bind_of_ok head]
    refine run_scoped_of_ok ?_
    rw [run_bind_of_ok params, run_bind_of_ok statements, run_bind_of_ok (run_consumeWord _ pos')]
    rfl
  | call args attached =>
    rename_i state mid tokens name args block pos pos' spaced
    have waits' : 0 < mid.barred := by
      rw [args.barred_eq]
      exact waits
    filter_upwards [args.yields, attached.blockOption waits'] with fuel args attached
    change (identifier (rule fuel) name pos).run (state.on (⟨.opening .round, pos', false⟩ :: tokens)) = _
    rw [identifier, run_bind_of_ok (run_isLocal _ _), run_bind_of_ok (run_atCallParen _), State.next_on_cons]
    have paren : ((Lexeme.opening .round : Lexeme Token).isOpening .round && !false) = true := rfl
    rw [paren, Bool.not_true, Bool.and_false, if_neg Bool.false_ne_true]
    exact callRest_of_parens args attached
  | blockCall hidden block =>
    rename_i state tokens name block pos spaced
    have brace := next_of_brace block
    filter_upwards [block.blockOption] with fuel block
    change (identifier (rule fuel) name pos).run (state.on tokens) = _
    rw [identifier, run_bind_of_ok (run_isLocal _ _), State.scopes_on, run_bind_of_ok (run_atCallParen _), hidden,
      Bool.false_and, if_neg Bool.false_ne_true]
    exact callRest_of_command (by rw [brace]; rfl) (bareArguments_none (by rw [brace]; rfl) (by rw [brace]; rfl)) block

theorem Item.barred_eq (item : Item state node after) : after.barred = state.barred := by
  cases item with
  | array inside => exact inside.barred_eq
  | call args attached => exact attached.barred_eq.trans args.barred_eq
  | blockCall hidden block => exact block.barred_eq
  | _ => rfl

/-- Whether an argument that begins with a lexeme is an expression and no label, splat or block. -/
def beginsPlain : Lexeme Token → Bool
  | .label _ | .operator _ => false
  | _ => true

theorem Item.beginsPlain (item : Item state node after) : beginsPlain state.next.lexeme = true := by
  cases item <;> rfl

theorem operator?_of_beginsPlain {lexeme : Lexeme Token} (plain : beginsPlain lexeme = true) :
    lexeme.operator? = none := by
  cases lexeme <;> first | rfl | cases plain

theorem Item.expression (item : Item state node after) (waits : 0 < state.barred)
    (ends : goesWithExpression after.next = false) : Parses .expression state node after := by
  have stays : Parses (.trailers node) after node after := trailers_of_not (goesWithOperand_of_expression ends)
  refine expression_of_operand_alone ?_ (operator?_of_beginsPlain item.beginsPlain) ends
  apply Parses.of_step
  filter_upwards [item.primary waits, stays.eventually] with fuel primary stays
  exact (run_bind_of_ok primary _).trans stays

end Formulary.Grammar
