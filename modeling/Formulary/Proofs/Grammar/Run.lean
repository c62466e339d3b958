import Formulary.Grammar
import Formulary.Proofs.Result

/-! What the parsers of single tokens do to a state. -/

namespace Formulary.Grammar

namespace State

variable (state : State)

/-- The state with other tokens ahead. -/
def on (tokens : List Token) : State :=
  { state with ahead := tokens }

/-- The state with another count of those who wait for a `do`. -/
def bar (barred : Nat) : State :=
  { state with barred }

/-- The token that is looked at. -/
def next : Token :=
  state.ahead.headD state.final

@[simp]
theorem ahead_on (tokens : List Token) : (state.on tokens).ahead = tokens := rfl

@[simp]
theorem scopes_on (tokens : List Token) : (state.on tokens).scopes = state.scopes := rfl

@[simp]
theorem barred_on (tokens : List Token) : (state.on tokens).barred = state.barred := rfl

@[simp]
theorem bar_on (tokens : List Token) (barred : Nat) : (state.on tokens).bar barred = (state.bar barred).on tokens := rfl

@[simp]
theorem barred_bar (barred : Nat) : (state.bar barred).barred = barred := rfl

@[simp]
theorem bar_bar (barred other : Nat) : (state.bar barred).bar other = state.bar other := rfl

@[simp]
theorem bar_self : state.bar state.barred = state := rfl

@[simp]
theorem on_on (tokens others : List Token) : (state.on tokens).on others = state.on others := rfl

@[simp]
theorem next_on_cons (token : Token) (tokens : List Token) : (state.on (token :: tokens)).next = token := rfl

theorem next_mem : state.next ∈ state.ahead ++ [state.final] := by
  unfold next
  cases state.ahead <;> simp

/-- Where a token stands that is not the end, it is the first one ahead. -/
theorem front (final : state.final.lexeme = .endOfText) (inner : state.next.lexeme ≠ .endOfText) :
    ∃ tokens, state.ahead = state.next :: tokens := by
  cases ahead : state.ahead with
  | nil =>
    refine absurd ?_ inner
    rwa [next, ahead, List.headD_nil]
  | cons token tokens => exact ⟨tokens, by rw [next, ahead, List.headD_cons]⟩

end State

variable {α β : Type} (state : State)

theorem run_bind_eq_ok_iff {p : Parser α} {next : α → Parser β} {state : State} {result : β × State} :
    (p >>= next).run state = .ok result ↔
      ∃ value after, p.run state = .ok (value, after) ∧ (next value).run after = .ok result := by
  rw [StateT.run_bind, Result.bind_eq_ok_iff, Prod.exists]

theorem run_bind_of_ok {p : Parser α} {state after : State} {value : α} (h : p.run state = .ok (value, after))
    (next : α → Parser β) : (p >>= next).run state = (next value).run after := by
  rw [StateT.run_bind, h]
  rfl

@[simp]
theorem pure_eq_ok {ε : Type} (value : α) : (pure value : Except ε α) = .ok value := rfl

@[simp]
theorem run_peek : peek.run state = .ok (state.next, state) := rfl

@[simp]
theorem run_advance : advance.run state = .ok (state.next, state.on state.ahead.tail) := rfl

@[simp]
theorem run_discard_advance : (discard advance).run state = .ok ((), state.on state.ahead.tail) := rfl

@[simp]
theorem run_check (test : Lexeme Token → Bool) : (check test).run state = .ok (test state.next.lexeme, state) := rfl

@[simp]
theorem run_checkWord (word : String) :
    (checkWord word).run state = .ok (state.next.lexeme.isKeyword word, state) := rfl

@[simp]
theorem run_atStop (stop : Stop) : (atStop stop).run state = .ok (stop.meets state.next.lexeme, state) := rfl

@[simp]
theorem run_skipWhile (test : Lexeme Token → Bool) :
    (skipWhile test).run state = .ok ((), state.on (state.ahead.dropWhile (test ·.lexeme))) := rfl

theorem run_skipWhile_of_not {state : State} {test : Lexeme Token → Bool} (stops : test state.next.lexeme = false) :
    (skipWhile test).run state = .ok ((), state) := by
  have kept : state.ahead.dropWhile (test ·.lexeme) = state.ahead := by
    cases ahead : state.ahead with
    | nil => rfl
    | cons token tokens =>
      rw [State.next, ahead] at stops
      exact List.dropWhile_cons_of_neg (Bool.not_eq_true _ ▸ stops)
  rw [run_skipWhile, kept]
  rfl

@[simp]
theorem run_isLocal (name : String) : (isLocal name).run state = .ok (Scope.isLocal name state.scopes, state) := rfl

@[simp]
theorem run_get : (get : Parser State).run state = .ok (state, state) := rfl

@[simp]
theorem run_modify (f : State → State) : (modify f : Parser Unit).run state = .ok ((), f state) := rfl

@[simp]
theorem run_atCallParen : atCallParen.run state =
    .ok (state.next.lexeme.isOpening .round && !state.next.spaced, state) := rfl

@[simp]
theorem run_atArgument : atArgument.run state =
    .ok (state.next.spaced && (beginsArgument state.next.lexeme ||
      (bindsArgument state.next.lexeme && !(state.ahead.tail.headD state.final).spaced &&
        !(state.ahead.tail.headD state.final).lexeme.isNewline)), state) := rfl

theorem run_leavingDo_of_ok {p : Parser α} {after : State} {value : α}
    (h : p.run (state.bar (state.barred + 1)) = .ok (value, after)) :
    (leavingDo p).run state = .ok (value, after.bar (after.barred - 1)) := by
  rw [leavingDo, run_bind_of_ok (run_modify state _)]
  exact run_bind_of_ok h _

theorem run_skipWord_of_not {state : State} {word : String} (h : state.next.lexeme.isKeyword word = false) :
    (skipWord word).run state = .ok ((), state) := by
  simp [skipWord, h]

theorem run_consumeWord {word : String} {spaced : Bool} {tokens : List Token} (pos : Position) :
    (consumeWord word).run (state.on (⟨.keyword word, pos, spaced⟩ :: tokens)) = .ok ((), state.on tokens) := by
  simp [consumeWord, consume, Lexeme.isKeyword]

theorem run_skipSeparators {state : State} {gap tokens : List Token} (newlines : ∀ token ∈ gap, token.lexeme.isSeparator)
    (stops : (state.on tokens).next.lexeme.isSeparator = false) :
    skipSeparators.run (state.on (gap ++ tokens)) = .ok ((), state.on tokens) := by
  have kept : (skipWhile Lexeme.isSeparator).run (state.on tokens) = .ok ((), state.on tokens) :=
    run_skipWhile_of_not stops
  rw [skipSeparators, run_skipWhile, State.ahead_on, List.dropWhile_append_of_pos newlines]
  exact kept

/-! Arguments -/

/-- The arguments and pairs that were found, with an item that was read before them. -/
def withItem : Node ⊕ Node × Node → List Node × List (Node × Node) → List Node × List (Node × Node)
  | .inl arg, (args, pairs) => (arg :: args, pairs)
  | .inr pair, (args, pairs) => (args, pair :: pairs)

end Formulary.Grammar
