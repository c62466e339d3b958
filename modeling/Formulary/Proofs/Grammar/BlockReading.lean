import Formulary.Proofs.Grammar.BlockCode
import Formulary.Proofs.Grammar.Program

/-! Block-structured code is read back as the tree that it was spelled from. -/

namespace Formulary.Grammar

variable {n : Nat} {state after : State} {closing spaced : Bool} {front rest tokens : List Token}

/-- No name is a variable here. -/
def Unbound (state : State) : Prop :=
  ∀ name, Scope.isLocal name state.scopes = false

/-! Commands -/

theorem arguments_plain (ends : endsStatement (state.on rest).next.lexeme) : ∀ {more : List String} {text : String}
    {n : Nat} {front : List Token}, Spells front (argumentLexemes text more) → more.length + 7 ≤ n →
    (rule n (.arguments none false)).run (state.on (front ++ rest)) = .ok (((text :: more).map plain, []), state.on rest)
  | [], text, n + 7, front, spelled, _ => by
    obtain ⟨spaced, _, rfl, nil⟩ := spelled.cons
    obtain rfl := nil.nil
    have read : (rule (n + 6) .expression).run (state.on (⟨.string [.text text], .origin, spaced⟩ :: rest)) = .ok _ :=
      expression_plain (endsArgument_of_endsStatement ends)
    have arrow : (state.on rest).next.lexeme.isArrow = false := test_of_endsStatement ends rfl rfl fun _ _ => rfl
    have comma : (state.on rest).next.lexeme.isComma = false := test_of_endsStatement ends rfl rfl fun _ _ => rfl
    change (arguments (rule (n + 6)) none false).run _ = _
    simp [arguments, argument, read, arrow, comma, atCloser]
  | other :: more, text, n + 7, front, spelled, enough => by
    obtain ⟨spaced, _, rfl, behind⟩ := spelled.cons
    obtain ⟨blank, tail, rfl, others⟩ := behind.cons
    have first : (rule (n + 6) .expression).run (state.on (⟨.string [.text text], .origin, spaced⟩ ::
        ⟨.comma, .origin, blank⟩ :: (tail ++ rest))) = .ok (plain text, state.on _) :=
      expression_plain rfl
    have second := arguments_plain ends others (n := n + 6) (by simp at enough; omega)
    obtain ⟨_, tail, rfl⟩ := others.argument
    change (arguments (rule (n + 6)) none false).run _ = _
    simp_all [arguments, argument, Lexeme.isArrow, Lexeme.isComma, skipNewlines, atCloser, Lexeme.isNewline]

theorem connective_command {name argument : String} {more : List String}
    (hidden : Scope.isLocal name state.scopes = false) (ends : endsStatement (state.on rest).next.lexeme)
    (spelled : Spells front (.identifier name :: argumentLexemes argument more)) (enough : more.length + 14 ≤ n) :
    (rule n .connective).run (state.on (front ++ rest)) =
      .ok (.call .origin name none ((argument :: more).map plain) none false, state.on rest) := by
  obtain ⟨n, rfl⟩ : ∃ m, n = m + 14 := ⟨n - 14, by omega⟩
  obtain ⟨spaced, tail, rfl, others⟩ := spelled.cons
  have follows : endsStatement ((state.bar (state.barred + 1)).on rest).next.lexeme := ends
  have args : (rule (n + 7) (.arguments none false)).run ((state.bar (state.barred + 1)).on (tail ++ rest)) = .ok _ :=
    arguments_plain (n := n + 7) follows others (by omega)
  obtain ⟨blank, tail, rfl⟩ := others.argument
  obtain ⟨rfl, -⟩ : blank = true ∧ _ := by simpa [Apart, Lexeme.isIdentifier, isString] using spelled.apart
  have list : (argumentList (rule (n + 7)) none).run ((state.bar (state.barred + 1)).on
      (⟨.string [.text argument], .origin, true⟩ :: tail ++ rest)) =
      .ok ((argument :: more).map plain, (state.bar (state.barred + 1)).on rest) := by
    rw [argumentList, run_bind_of_ok args]
    rfl
  have command : (commandArguments (rule (n + 7))).run
      (state.on (⟨.string [.text argument], .origin, true⟩ :: tail ++ rest)) =
      .ok ((argument :: more).map plain, state.on rest) :=
    run_leavingDo_of_ok (state.on _) list
  have call : (callRest (rule (n + 7)) name none .origin).run
      (state.on (⟨.string [.text argument], .origin, true⟩ :: tail ++ rest)) =
      .ok (.call .origin name none ((argument :: more).map plain) none false, state.on rest) := by
    simp only [List.cons_append] at command
    simp [callRest, Lexeme.isOpening, beginsArgument, command, blockOption_stops ends]
  refine connective_of_operand ?_ rfl rfl ends
  change (operand (rule (n + 7))).run _ = _
  simp only [List.cons_append] at call
  simp [operand, primary, identifier, hidden, call, trailers_stops (endsArgument_of_endsStatement ends)]

/-! Bodies -/

/-- The words that close a body. -/
def closers : List String :=
  ["elsif", "else", "end"]

/-- What stops the statements of a body, or of a whole text. -/
structure Bounded (stop : Stop) : Prop where
  words : ∀ word ∈ stop.words, word ∈ closers
  closer : stop.closer = none

theorem Bounded.cases {stop : Stop} (bounded : Bounded stop) {lexeme : Lexeme Token} (h : stop.meets lexeme) :
    lexeme = .endOfText ∨ ∃ word ∈ closers, lexeme = .keyword word := by
  cases lexeme with
  | endOfText => exact .inl rfl
  | keyword word => exact .inr ⟨word, bounded.words word (List.contains_iff_mem.1 h), rfl⟩
  | closing bracket => simp [Stop.meets, bounded.closer] at h
  | _ => cases h

/-- What a body is read as, whatever stops it. -/
def BodyRead (closing : Bool) (body : List Code) : Prop :=
  ∀ {n : Nat} {breaks front rest : List Token} {state : State} {stop : Stop},
    Unbound state → (∀ token ∈ breaks, token.lexeme.isSeparator) →
    Spells front (lines closing body) → Bounded stop → stop.meets (state.on rest).next.lexeme →
    16 * front.length + 1 ≤ n →
    (rule n (.statements stop)).run (state.on (breaks ++ (front ++ rest))) = .ok (nodes body, state.on rest)

/-- How far a statement is read before its own modifiers may follow: with these read, others may. -/
def StatementRead (closing : Bool) (code : Code) : Prop :=
  ∀ {n : Nat} {front rest : List Token} {state : State},
    Unbound state → Spells front (code.lexemes closing) → endsStatement (state.on rest).next.lexeme → 16 * front.length ≤ n →
    ∃ m, n ≤ m + front.length ∧
      (rule n .statement).run (state.on (front ++ rest)) = (rule m (.modifiers code.node)).run (state.on rest)

theorem bodyRead_nil : BodyRead closing [] := by
  intro n breaks front rest state stop hidden newlines spelled bounded meets enough
  obtain ⟨n, rfl⟩ : ∃ m, n = m + 1 := ⟨n - 1, by omega⟩
  obtain rfl := spelled.nil
  have stops : (state.on rest).next.lexeme.isSeparator = false := by
    obtain h | ⟨_, _, h⟩ := bounded.cases meets <;> rw [h] <;> rfl
  change (statements (rule n) stop).run _ = _
  rw [statements, List.nil_append, run_bind_of_ok (run_skipSeparators newlines stops)]
  simp [meets, nodes]

theorem Bounded.meets_keyword {stop : Stop} (bounded : Bounded stop) {word : String} (h : word ∉ closers) :
    stop.meets (.keyword word) = false := by
  by_contra meets
  obtain other | ⟨_, member, other⟩ := bounded.cases (eq_true_of_ne_false meets)
  · cases other
  · cases other
    exact h member

theorem loopWord_not_mem_closers (polarity : Polarity) : polarity.loopWord ∉ closers := by
  cases polarity <;> decide

/-- What a statement begins with. -/
def Code.head : Code → Lexeme Token
  | .command name .. => .identifier name
  | .whether .. => .keyword "if"
  | .unless .. => .keyword "unless"
  | .loop polarity .. => .keyword polarity.loopWord
  | .branchModifier _ _ statement | .loopModifier _ _ statement => statement.head

theorem Code.lexemes_head (closing : Bool) (code : Code) : ∃ more, code.lexemes closing = code.head :: more := by
  induction code using Code.head.induct with
  | case1 | case2 | case3 | case4 => exact ⟨_, rfl⟩
  | case5 _ _ statement ih | case6 _ _ statement ih =>
    obtain ⟨more, h⟩ := ih
    exact ⟨_, by rw [lexemes, h]; rfl⟩

theorem Code.isSeparator_head (code : Code) : code.head.isSeparator = false := by
  induction code using Code.head.induct with
  | case1 | case2 | case3 | case4 => rfl
  | case5 _ _ statement ih | case6 _ _ statement ih => exact ih

/-- A statement begins with a name or with a word that closes no body. -/
theorem Code.meets_head (code : Code) {stop : Stop} (bounded : Bounded stop) : stop.meets code.head = false := by
  induction code using Code.head.induct with
  | case1 => rfl
  | case2 | case3 => exact bounded.meets_keyword (by decide)
  | case4 polarity => exact bounded.meets_keyword (loopWord_not_mem_closers polarity)
  | case5 _ _ statement ih | case6 _ _ statement ih => exact ih

/-- What follows a statement of a body: a newline, or what stops the body. -/
def Stop.follows (stop : Stop) (lexeme : Lexeme Token) : Prop :=
  lexeme = .newline ∨ stop.meets lexeme

theorem Bounded.test_of_follows {stop : Stop} (bounded : Bounded stop) {lexeme : Lexeme Token}
    (h : stop.follows lexeme) {α : Type} {test : Lexeme Token → α} {value : α} (newline : test .newline = value)
    (endOfText : test .endOfText = value) (words : ∀ word ∈ closers, test (.keyword word) = value) :
    test lexeme = value := by
  obtain rfl | meets := h
  · exact newline
  · obtain rfl | ⟨word, member, rfl⟩ := bounded.cases meets
    · exact endOfText
    · exact words word member

theorem Spells.gap {more : List Code} {front others : List Token} {state : State} {stop : Stop}
    (h : Spells front (Grammar.gap closing more)) (spelled : Spells others (lines closing more))
    (meets : stop.meets (state.on rest).next.lexeme) :
    (∀ token ∈ front, token.lexeme.isSeparator) ∧
      stop.follows (state.on (front ++ (others ++ rest))).next.lexeme := by
  rw [Grammar.gap] at h
  split at h
  · obtain ⟨spaced, _, rfl, nil⟩ := h.cons
    obtain rfl := nil.nil
    exact ⟨by simp [Lexeme.isSeparator], .inl rfl⟩
  · obtain rfl := h.nil
    obtain rfl : more = [] := by simp_all
    obtain rfl := spelled.nil
    exact ⟨List.forall_mem_nil _, .inr meets⟩

theorem bodyRead_cons {code : Code} {more : List Code} (hcode : StatementRead closing code)
    (hmore : BodyRead closing more) : BodyRead closing (code :: more) := by
  intro n breaks front rest state stop hidden newlines spelled bounded meets enough
  obtain ⟨n, rfl⟩ : ∃ m, n = m + 1 := ⟨n - 1, by omega⟩
  obtain ⟨first, _, rfl, spelledFirst, behind⟩ := spelled.append
  obtain ⟨space, others, rfl, spelledSpace, spelledOthers⟩ := behind.append
  obtain ⟨newline, follows⟩ := spelledSpace.gap spelledOthers meets
  obtain ⟨tail, head⟩ := code.lexemes_head closing
  obtain ⟨spaced, tail, rfl, -⟩ := (head ▸ spelledFirst).cons
  simp only [List.length_append, List.length_cons] at enough
  -- the first statement, after which no modifier comes
  have one : (rule n .statement).run (state.on (⟨code.head, .origin, spaced⟩ :: tail ++ (space ++ (others ++ rest)))) =
      .ok (code.node, state.on (space ++ (others ++ rest))) := by
    have ends : endsStatement (state.on (space ++ (others ++ rest))).next.lexeme :=
      bounded.test_of_follows follows rfl rfl (by decide)
    obtain ⟨m, far, read⟩ := hcode (n := n) hidden spelledFirst ends (by simp only [List.length_cons]; omega)
    simp only [List.length_cons] at far
    obtain ⟨m, rfl⟩ : ∃ k, m = k + 1 := ⟨m - 1, by omega⟩
    rw [read]
    refine modifiers_stops fun word member => bounded.test_of_follows follows rfl rfl ?_
    revert word
    decide
  have all := hmore (n := n) hidden newline spelledOthers bounded meets (by omega)
  have atEnd : ¬(stop.meets (state.on (space ++ (others ++ rest))).next.lexeme = false ∧
      (state.on (space ++ (others ++ rest))).next.lexeme.isSeparator = false) := by
    rintro ⟨meetsNot, separatorNot⟩
    obtain h | h := follows
    · rw [h] at separatorNot
      cases separatorNot
    · rw [h] at meetsNot
      cases meetsNot
  have skip : skipSeparators.run
      (state.on (breaks ++ (⟨code.head, .origin, spaced⟩ :: (tail ++ (space ++ (others ++ rest)))))) = .ok ((), _) :=
    run_skipSeparators newlines code.isSeparator_head
  change (statements (rule n) stop).run _ = _
  simp only [List.append_assoc, List.cons_append] at one ⊢
  rw [statements, run_bind_of_ok skip]
  simp [nodes, code.meets_head bounded, one, if_neg atEnd, all]

/-- A body on the lines below. -/
theorem body_below {body : List Code} {inner : List Token} {stop : Stop} (hbody : BodyRead closing body)
    (hidden : Unbound state) (spelled : Spells inner (lines closing body)) (bounded : Bounded stop)
    (meets : stop.meets (state.on rest).next.lexeme) (enough : 16 * inner.length + 1 ≤ n) :
    (rule n (.statements stop)).run (state.on (⟨.newline, .origin, spaced⟩ :: (inner ++ rest))) =
      .ok (nodes body, state.on rest) := by
  have newline : ∀ token ∈ [(⟨.newline, .origin, spaced⟩ : Token)], token.lexeme.isSeparator := by
    simp [Lexeme.isSeparator]
  exact hbody hidden newline spelled bounded meets enough

/-! Constructs that a keyword begins -/

/-- What an else clause is read as, in front of the word that closes the construct. -/
def ElseRead (closing : Bool) (orelse : Option (List Code)) : Prop :=
  ∀ {n : Nat} {front rest : List Token} {state : State} {spaced : Bool},
    Unbound state → Spells front (elseLexemes closing orelse) →
    16 * front.length ≤ n →
    (elseClause (rule n)).run (state.on (front ++ ⟨.keyword "end", .origin, spaced⟩ :: rest)) =
      .ok (elseNode? orelse, state.on (⟨.keyword "end", .origin, spaced⟩ :: rest))

theorem elseRead_none : ElseRead closing none := by
  intro n front rest state spaced hidden spelled enough
  obtain rfl := spelled.nil
  simp [elseClause, Lexeme.isKeyword, elseNode?]

theorem bounded_untilEnd : Bounded untilEnd :=
  ⟨by decide, rfl⟩

theorem bounded_branch : Bounded ⟨["elsif", "else", "end"], none⟩ :=
  ⟨by decide, rfl⟩

theorem elseRead_some {body : List Code} (hbody : BodyRead closing body) : ElseRead closing (some body) := by
  intro n front rest state spaced hidden spelled enough
  obtain ⟨_, _, rfl, behind⟩ := spelled.cons
  obtain ⟨blank, front, rfl, lines⟩ := behind.cons
  simp only [List.length_cons] at enough
  have read : (rule n (.statements untilEnd)).run (state.on
      (⟨.newline, .origin, blank⟩ :: (front ++ ⟨.keyword "end", .origin, spaced⟩ :: rest))) = .ok _ :=
    body_below hbody hidden lines bounded_untilEnd rfl (by omega)
  simp [elseClause, Lexeme.isKeyword, elseNode?, read]

theorem Spells.next {lexeme : Lexeme Token} {more : List (Lexeme Token)} (h : Spells front (lexeme :: more)) :
    (state.on (front ++ rest)).next.lexeme = lexeme := by
  obtain ⟨spaced, tail, rfl, -⟩ := h.cons
  rfl

/-- A keyword, its condition on the same line, and a body below. -/
theorem Spells.header {word cond : String} {body : List Code} {more : List (Lexeme Token)}
    (h : Spells front (.keyword word :: .identifier cond :: .newline :: (lines closing body ++ more))) :
    ∃ first second third inner behind,
      front = ⟨.keyword word, .origin, first⟩ :: ⟨.identifier cond, .origin, second⟩ ::
        ⟨.newline, .origin, third⟩ :: (inner ++ behind) ∧
      Spells inner (lines closing body) ∧ Spells behind more := by
  obtain ⟨first, _, rfl, afterWord⟩ := h.cons
  obtain ⟨second, _, rfl, afterCond⟩ := afterWord.cons
  obtain ⟨third, _, rfl, below⟩ := afterCond.cons
  obtain ⟨inner, behind, rfl, spelledInner, spelledBehind⟩ := below.append
  exact ⟨first, second, third, inner, behind, rfl, spelledInner, spelledBehind⟩

/-- What a test is read as that ends like this, from its first word on. -/
def RestRead (closing : Bool) (ending : Rest) : Prop :=
  ∀ {n : Nat} {front rest : List Token} {state : State} {word cond : String} {body : List Code},
    Unbound state → word ∈ ["if", "elsif"] → BodyRead closing body →
    Spells front (.keyword word :: .identifier cond :: .newline :: (lines closing body ++ ending.lexemes closing)) →
    16 * front.length ≤ n + 8 →
    (rule n .branch).run (state.on (front ++ rest)) =
      .ok (.branch .origin (branchHead (some word)) (bare cond) (nodes body) ending.node?, state.on rest)

section Body

variable {body : List Code} {inner : List Token} {stop : Stop} {word cond : String} {first second third : Bool}

/-- What `branch` does after its first body. -/
def branchEnding (parse : Rules) (pos : Position) (head : BranchHead) (cond : Node) (statements : List Node) :
    Parser Node := do
  if head.polarity = .positive && (← checkWord "elsif") then
    return .branch pos head cond statements (some (← parse .branch))
  else
    let orelse ← elseClause parse
    consumeWord "end"
    return .branch pos head cond statements orelse

theorem branch_header (hidden : Unbound state) (hbody : BodyRead closing body)
    (spelled : Spells inner (lines closing body)) (closes : (state.on rest).next.lexeme.keyword?.any closers.contains)
    (enough : 16 * inner.length + 1 ≤ n + 8) :
    (rule (n + 9) .branch).run (state.on (⟨.keyword word, .origin, first⟩ :: ⟨.identifier cond, .origin, second⟩ ::
        ⟨.newline, .origin, third⟩ :: (inner ++ rest))) =
      (branchEnding (rule (n + 8)) .origin (branchHead (some word)) (bare cond) (nodes body)).run (state.on rest) := by
  have meets : (⟨["elsif", "else", "end"], none⟩ : Stop).meets (state.on rest).next.lexeme := by
    cases hl : (state.on rest).next.lexeme <;> simp_all [Lexeme.keyword?, Stop.meets, closers]
  have test : (rule (n + 8) .connective).run (state.on (⟨.identifier cond, .origin, second⟩ ::
      ⟨.newline, .origin, third⟩ :: (inner ++ rest))) = .ok _ :=
    connective_bare (hidden cond) rfl
  have skip : (skipWord "then").run (state.on (⟨.newline, .origin, third⟩ :: (inner ++ rest))) = .ok _ :=
    run_skipWord_of_not rfl
  have statements : (rule (n + 8) (.statements ⟨["elsif", "else", "end"], none⟩)).run (state.on
      (⟨.newline, .origin, third⟩ :: (inner ++ rest))) = .ok _ :=
    body_below hbody hidden spelled bounded_branch meets enough
  change (branch (rule (n + 8))).run _ = _
  rw [branch, run_bind_of_ok (run_advance _)]
  simp only [State.ahead_on, List.tail_cons, State.next_on_cons, State.on_on]
  rw [run_bind_of_ok test, run_bind_of_ok skip, run_bind_of_ok statements]
  rfl

/-- A test without a further one. -/
theorem branch_last {orelse : Option (List Code)} (hidden : Unbound state)
    (hbody : BodyRead closing body) (helse : ElseRead closing orelse)
    (spelled : Spells front (.keyword word :: .identifier cond :: .newline ::
      (lines closing body ++ (elseLexemes closing orelse ++ [.keyword "end"]))))
    (enough : 16 * front.length ≤ n + 8) :
    (rule n .branch).run (state.on (front ++ rest)) =
      .ok (.branch .origin (branchHead (some word)) (bare cond) (nodes body) (elseNode? orelse), state.on rest) := by
  obtain ⟨_, second, third, inner, _, rfl, spelledBody, behind⟩ := spelled.header
  obtain ⟨clause, _, rfl, spelledElse, final⟩ := behind.append
  obtain ⟨spaced, _, rfl, nil⟩ := final.cons
  obtain rfl := nil.nil
  simp only [List.length_cons, List.length_append] at enough
  obtain ⟨n, rfl⟩ : ∃ m, n = m + 9 := ⟨n - 9, by omega⟩
  have closes : (state.on (clause ++ ⟨.keyword "end", .origin, spaced⟩ :: rest)).next.lexeme.keyword?.any
      closers.contains ∧
      (state.on (clause ++ ⟨.keyword "end", .origin, spaced⟩ :: rest)).next.lexeme.isKeyword "elsif" = false := by
    cases orelse with
    | none =>
      obtain rfl := spelledElse.nil
      exact ⟨rfl, rfl⟩
    | some body =>
      obtain ⟨_, _, rfl, _⟩ := spelledElse.cons
      exact ⟨rfl, rfl⟩
  have clauseRead : (elseClause (rule (n + 8))).run (state.on (clause ++ ⟨.keyword "end", .origin, spaced⟩ :: rest)) =
      .ok _ :=
    helse hidden spelledElse (by omega)
  simp only [List.cons_append, List.append_assoc, List.nil_append]
  rw [branch_header (n := n) hidden hbody spelledBody closes.1 (by omega)]
  simp [branchEnding, closes.2, clauseRead, run_consumeWord]

theorem restRead_last {orelse : Option (List Code)} (helse : ElseRead closing orelse) :
    RestRead closing (.last orelse) :=
  fun hidden _ hbody spelled enough => branch_last hidden hbody helse spelled enough

theorem restRead_further {more : Rest} (hinner : BodyRead closing body) (hmore : RestRead closing more) :
    RestRead closing (.further cond body more) := by
  intro n front rest state word cond' outer hidden member houter spelled enough
  obtain ⟨_, second, third, inner, tail, rfl, spelledBody, behind⟩ := spelled.header
  simp only [List.length_cons, List.length_append] at enough
  obtain ⟨n, rfl⟩ : ∃ m, n = m + 9 := ⟨n - 9, by omega⟩
  have further : (rule (n + 8) .branch).run (state.on (tail ++ rest)) = .ok _ :=
    hmore hidden (by decide) hinner behind (by omega)
  obtain ⟨spaced, tail, rfl, -⟩ := behind.cons
  have positive : ∀ word ∈ ["if", "elsif"], (branchHead (some word)).polarity = .positive := by decide
  simp only [List.cons_append, List.append_assoc] at further ⊢
  rw [branch_header (n := n) hidden houter spelledBody rfl (by omega)]
  simp [branchEnding, positive word member, Lexeme.isKeyword, further, Rest.node?]
  rfl

end Body

/-! Statements -/

theorem operand_branch {word : String} {node : Node} (member : word ∈ ["if", "unless"])
    (first : state.next.lexeme = .keyword word) (read : (rule (n + 1) .branch).run state = .ok (node, after))
    (ends : endsStatement after.next.lexeme) : (rule (n + 2) .operand).run state = .ok (node, after) := by
  have trailers : (rule (n + 1) (.trailers node)).run after = .ok (node, after) :=
    trailers_stops (endsArgument_of_endsStatement ends)
  change (operand (rule (n + 1))).run _ = _
  obtain rfl | rfl : word = "if" ∨ word = "unless" := by simpa using member
  all_goals simp [operand, primary, keyword, first, read, trailers]

theorem operand_loop {polarity : Polarity} {node : Node} (first : state.next.lexeme = .keyword polarity.loopWord)
    (read : (loop (rule (n + 1)) polarity).run state = .ok (node, after)) (ends : endsStatement after.next.lexeme) :
    (rule (n + 2) .operand).run state = .ok (node, after) := by
  have trailers : (rule (n + 1) (.trailers node)).run after = .ok (node, after) :=
    trailers_stops (endsArgument_of_endsStatement ends)
  change (operand (rule (n + 1))).run _ = _
  cases polarity <;> simp_all [operand, primary, keyword, Polarity.loopWord]

/-- A statement that begins with an operand, up to its modifiers. -/
theorem statement_of_operand {node : Node} (read : (rule n .operand).run state = .ok (node, after))
    (sign : state.next.lexeme.operator? = none) (negation : state.next.lexeme.isKeyword "not" = false)
    (ends : endsStatement after.next.lexeme) :
    (rule (n + 7) .statement).run state = (rule (n + 6) (.modifiers node)).run after := by
  change (statement (rule (n + 6))).run _ = _
  rw [statement, run_bind_of_ok (connective_of_operand read sign negation ends)]

theorem statementRead_command {name argument : String} {more : List String} :
    StatementRead closing (.command name argument more) := by
  intro n front rest state hidden spelled ends enough
  have length := spelled.length_eq
  simp only [Code.lexemes, List.length_cons, length_argumentLexemes] at length
  obtain ⟨n, rfl⟩ : ∃ m, n = m + 1 := ⟨n - 1, by omega⟩
  refine ⟨n, by omega, ?_⟩
  change (statement (rule n)).run _ = _
  rw [statement, run_bind_of_ok (connective_command (hidden name) ends spelled (by omega))]
  rfl

/-- A construct that is read as an operand from its keyword on. -/
theorem statementRead_of_operand {code : Code} {word : String} {more : List (Lexeme Token)}
    (lexemes : code.lexemes closing = .keyword word :: more) (plain : word ≠ "not")
    (read : ∀ {n : Nat} {front rest : List Token} {state : State}, Unbound state →
      Spells front (code.lexemes closing) → endsStatement (state.on rest).next.lexeme → 16 * front.length ≤ n + 9 →
      (rule (n + 2) .operand).run (state.on (front ++ rest)) = .ok (code.node, state.on rest)) :
    StatementRead closing code := by
  intro n front rest state hidden spelled ends enough
  have begins : (state.on (front ++ rest)).next.lexeme = .keyword word := (lexemes ▸ spelled).next
  have length := spelled.length_eq
  rw [lexemes, List.length_cons] at length
  obtain ⟨n, rfl⟩ : ∃ m, n = m + 9 := ⟨n - 9, by omega⟩
  refine ⟨n + 8, by omega, statement_of_operand (read hidden spelled ends enough) ?_ ?_ ends⟩
  · rw [begins]
    rfl
  · simpa [begins, Lexeme.isKeyword] using plain

theorem statementRead_whether {cond : String} {body : List Code} {ending : Rest} (hbody : BodyRead closing body)
    (hending : RestRead closing ending) : StatementRead closing (.whether cond body ending) :=
  statementRead_of_operand rfl (by decide) fun hidden spelled ends enough =>
    operand_branch (by decide) spelled.next (hending hidden (by decide) hbody spelled enough) ends

theorem statementRead_unless {cond : String} {body : List Code} {orelse : Option (List Code)}
    (hbody : BodyRead closing body) (helse : ElseRead closing orelse) :
    StatementRead closing (.unless cond body orelse) :=
  statementRead_of_operand rfl (by decide) fun hidden spelled ends enough =>
    operand_branch (by decide) spelled.next (branch_last hidden hbody helse spelled enough) ends

theorem run_loop {polarity : Polarity} {cond : String} {body : List Code} (hbody : BodyRead closing body)
    (hidden : Unbound state)
    (spelled : Spells front (.keyword polarity.loopWord :: .identifier cond :: .newline ::
      (lines closing body ++ [.keyword "end"])))
    (enough : 16 * front.length ≤ n + 24) :
    (loop (rule n) polarity).run (state.on (front ++ rest)) =
      .ok (.loop .origin polarity (bare cond) (nodes body) false, state.on rest) := by
  obtain ⟨_, second, third, inner, behind, rfl, spelledBody, final⟩ := spelled.header
  obtain ⟨spaced, _, rfl, nil⟩ := final.cons
  obtain rfl := nil.nil
  simp only [List.length_cons, List.length_append] at enough
  obtain ⟨n, rfl⟩ : ∃ m, n = m + 8 := ⟨n - 8, by omega⟩
  have test : (rule (n + 8) .connective).run ((state.bar (state.barred + 1)).on (⟨.identifier cond, .origin, second⟩ ::
      ⟨.newline, .origin, third⟩ :: (inner ++ ⟨.keyword "end", .origin, spaced⟩ :: rest))) = .ok _ :=
    connective_bare (hidden cond) rfl
  have guarded : (leavingDo (rule (n + 8) .connective)).run (state.on (⟨.identifier cond, .origin, second⟩ ::
      ⟨.newline, .origin, third⟩ :: (inner ++ ⟨.keyword "end", .origin, spaced⟩ :: rest))) = .ok (bare cond, state.on _) :=
    run_leavingDo_of_ok (state.on _) test
  have skip : (skipWord "do").run (state.on
      (⟨.newline, .origin, third⟩ :: (inner ++ ⟨.keyword "end", .origin, spaced⟩ :: rest))) = .ok _ :=
    run_skipWord_of_not rfl
  have statements : (rule (n + 8) (.statements untilEnd)).run (state.on
      (⟨.newline, .origin, third⟩ :: (inner ++ ⟨.keyword "end", .origin, spaced⟩ :: rest))) = .ok _ :=
    body_below hbody hidden spelledBody bounded_untilEnd rfl (by omega)
  simp only [List.cons_append, List.append_assoc, List.nil_append]
  rw [loop, run_bind_of_ok (run_advance _)]
  simp only [State.ahead_on, List.tail_cons, State.next_on_cons, State.on_on]
  rw [run_bind_of_ok guarded]
  simp [loopBody, skip, statements, run_consumeWord]

theorem statementRead_loop {polarity : Polarity} {cond : String} {body : List Code} (hbody : BodyRead closing body) :
    StatementRead closing (.loop polarity cond body) :=
  statementRead_of_operand rfl (by cases polarity <;> decide) fun hidden spelled ends enough =>
    operand_loop spelled.next (run_loop hbody hidden spelled (by omega)) ends

/-- A modifier after what is read already. -/
theorem modifiers_bare {node : Node} {word cond : String} {first second : Bool}
    (hidden : Scope.isLocal cond state.scopes = false) (ends : endsStatement (state.on rest).next.lexeme)
    (result : Node) (make : (word, result) ∈ [("if", Node.branchModifier node.pos .positive (bare cond) node),
      ("unless", .branchModifier node.pos .negative (bare cond) node),
      ("while", .loop node.pos .positive (bare cond) [node] true),
      ("until", .loop node.pos .negative (bare cond) [node] true)]) :
    (rule (n + 9) (.modifiers node)).run
        (state.on (⟨.keyword word, .origin, first⟩ :: ⟨.identifier cond, .origin, second⟩ :: rest)) =
      (rule (n + 8) (.modifiers result)).run (state.on rest) := by
  have test : (rule (n + 8) .connective).run (state.on (⟨.identifier cond, .origin, second⟩ :: rest)) =
      .ok (bare cond, state.on rest) :=
    connective_bare hidden ends
  change (modifiers (rule (n + 8)) node).run _ = _
  simp only [List.mem_cons, List.not_mem_nil, or_false, Prod.mk.injEq] at make
  obtain ⟨rfl, rfl⟩ | ⟨rfl, rfl⟩ | ⟨rfl, rfl⟩ | ⟨rfl, rfl⟩ := make <;>
    simp [modifiers, Lexeme.keyword?, test]

theorem statementRead_modifier {statement code : Code} {word cond : String} (hstatement : StatementRead closing statement)
    (lexemes : code.lexemes closing = statement.lexemes closing ++ [.keyword word, .identifier cond])
    (keyword : endWords.contains word)
    (make : (word, code.node) ∈ [("if", Node.branchModifier statement.node.pos .positive (bare cond) statement.node),
      ("unless", .branchModifier statement.node.pos .negative (bare cond) statement.node),
      ("while", .loop statement.node.pos .positive (bare cond) [statement.node] true),
      ("until", .loop statement.node.pos .negative (bare cond) [statement.node] true)]) :
    StatementRead closing code := by
  intro n front rest state hidden spelled ends enough
  rw [lexemes] at spelled
  obtain ⟨inner, _, rfl, spelledInner, behind⟩ := spelled.append
  obtain ⟨first, _, rfl, afterWord⟩ := behind.cons
  obtain ⟨second, _, rfl, nil⟩ := afterWord.cons
  obtain rfl := nil.nil
  simp only [List.length_append, List.length_cons, List.length_nil] at enough
  have follows : endsStatement (state.on (⟨.keyword word, .origin, first⟩ :: ⟨.identifier cond, .origin, second⟩ ::
      rest)).next.lexeme :=
    keyword
  obtain ⟨m, far, read⟩ := hstatement (n := n) hidden spelledInner follows (by omega)
  obtain ⟨m, rfl⟩ : ∃ k, m = k + 9 := ⟨m - 9, by omega⟩
  refine ⟨m + 8, by simp only [List.length_append, List.length_cons, List.length_nil]; omega, ?_⟩
  simp only [List.append_assoc, List.cons_append, List.nil_append]
  rw [read, modifiers_bare (hidden cond) ends code.node make]

theorem Code.pos_node (code : Code) : code.node.pos = .origin := by
  cases code <;> rfl

mutual

theorem statementRead : ∀ code : Code, StatementRead closing code
  | .command .. => statementRead_command
  | .whether _ body ending => statementRead_whether (bodyRead body) (restRead ending)
  | .unless _ body orelse => statementRead_unless (bodyRead body) (elseRead orelse)
  | .loop _ _ body => statementRead_loop (bodyRead body)
  | .branchModifier polarity _ statement =>
    statementRead_modifier (statementRead statement) rfl (by cases polarity <;> rfl)
      (by cases polarity <;> simp [Code.node, statement.pos_node, Polarity.branchWord])
  | .loopModifier polarity _ statement =>
    statementRead_modifier (statementRead statement) rfl (by cases polarity <;> rfl)
      (by cases polarity <;> simp [Code.node, statement.pos_node, Polarity.loopWord])

theorem restRead : ∀ ending : Rest, RestRead closing ending
  | .last orelse => restRead_last (elseRead orelse)
  | .further _ body more => restRead_further (bodyRead body) (restRead more)

theorem elseRead : ∀ orelse : Option (List Code), ElseRead closing orelse
  | none => elseRead_none
  | some body => elseRead_some (bodyRead body)

theorem bodyRead : ∀ body : List Code, BodyRead closing body
  | [] => bodyRead_nil
  | code :: more => bodyRead_cons (statementRead code) (bodyRead more)

end

/-! Whole texts -/

theorem length_le_tokensWeight (tokens : List Token) : tokens.length ≤ tokensWeight tokens := by
  induction tokens with
  | nil => exact Nat.le_refl 0
  | cons token tokens ih =>
    have positive : 1 ≤ token.weight := by
      obtain ⟨lexeme, pos, spaced⟩ := token
      cases lexeme <;> simp [Token.weight]
    rw [List.length_cons, tokensWeight]
    omega

/-- Tokens at one place that spell block-structured code, and the end of the text behind them. -/
theorem ofTokens_of_spells {code : List Code} {tokens : List Token}
    (h : Spells tokens (lines closing code ++ [.endOfText])) :
    ofTokens tokens = .ok (.program .origin (nodes code)) := by
  obtain ⟨front, _, rfl, spelled, behind⟩ := h.append
  obtain ⟨spaced, _, rfl, nil⟩ := behind.cons
  obtain rfl := nil.nil
  have enough : 16 * front.length + 1 ≤ enoughFuel (front ++ [⟨.endOfText, .origin, spaced⟩]) := by
    have := length_le_tokensWeight (front ++ [⟨.endOfText, .origin, spaced⟩])
    rw [List.length_append] at this
    rw [enoughFuel]
    omega
  have begins : start (front ++ [⟨.endOfText, .origin, spaced⟩]) =
      State.on ⟨[], ⟨.endOfText, .origin, spaced⟩, [⟨true, []⟩], 0⟩ ([] ++ (front ++ [])) := by
    simp [start, State.on]
  have read : (rule (enoughFuel (front ++ [⟨.endOfText, .origin, spaced⟩])) (.statements {})).run
      (State.on ⟨[], ⟨.endOfText, .origin, spaced⟩, [⟨true, []⟩], 0⟩ ([] ++ (front ++ []))) = .ok _ :=
    bodyRead code (fun _ => rfl) (List.forall_mem_nil _) spelled ⟨List.forall_mem_nil _, rfl⟩ rfl enough
  rw [ofTokens, begins, program, run_bind_of_ok read]
  rfl

/-- Block-structured code is read from its spelling as exactly the statements it was spelled from, wherever the
tokens stand and however the blanks between them are set. -/
theorem ofTokens_lines (closing : Bool) (code : List Code) (tokens : List Token)
    (spelled : tokens.map (·.lexeme) = lines closing code ++ [.endOfText]) (apart : tokens.IsChain Apart) :
    (ofTokens tokens).map (Node.place nowhere) = .ok (.program .origin (code.map Code.node)) := by
  have lexemes : (unplaced tokens).map (·.lexeme) = lines closing code ++ [.endOfText] := by
    have placeless : Placeless (lines closing code ++ [.endOfText]) := (placeless_lines code).append rfl
    rw [← placeless, ← spelled, List.map_map, List.map_map]
    exact List.map_congr_left fun token _ => token.lexeme_place nowhere
  have read : ofTokens (unplaced tokens) = .ok (.program .origin (nodes code)) := by
    refine ofTokens_of_spells ⟨lexemes, ?_, ?_⟩
    · simp [nowhere]
    · exact (List.isChain_map _).2 (apart.imp fun _ _ => apart_place)
  have placed := ofTokens_place (f := nowhere) rfl tokens
  rw [read] at placed
  cases h : ofTokens tokens with
  | ok tree =>
    rw [h] at placed
    have same : Node.program .origin (nodes code) = tree.place nowhere := Option.some.inj placed
    rw [Except.map, ← same, nodes_eq]
  | error fault =>
    rw [h] at placed
    cases placed

/-- A test with a further one, an empty body, a loop and a modifier in it, under a modifier. -/
def nested : List Code :=
  [.branchModifier .negative "b" (.whether "a" [.loopModifier .negative "c" (.command "odie" "x" ["", "y"])]
    (.further "d" [] (.last (some [.loop .positive "e" [], .unless "f" [] none]))))]

/-- Its tokens, each of them behind a blank. -/
def nestedTokens : List Token :=
  (lines true nested ++ [Lexeme.endOfText]).map (⟨·, ⟨3, 5⟩, true⟩)

theorem ofTokens_lines_nested :
    nestedTokens.map (·.lexeme) = lines true nested ++ [.endOfText] ∧ nestedTokens.IsChain Apart ∧
      (ofTokens nestedTokens).map (Node.place nowhere) = .ok (.program .origin (nested.map Code.node)) := by
  have spelled : nestedTokens.map (·.lexeme) = lines true nested ++ [.endOfText] := rfl
  have apart : nestedTokens.IsChain Apart := by decide
  exact ⟨spelled, apart, ofTokens_lines true nested nestedTokens spelled apart⟩

end Formulary.Grammar
