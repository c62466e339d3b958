import Formulary.Grammar.Basic
import Formulary.Proofs.Tree.Place

/-!
Parsers that do not look at positions: when those of the tokens are mapped, the same tokens are read, and the
positions in what comes out are mapped alike. How a parser fails is not compared.
-/

namespace Formulary.Grammar

variable (f : Position → Position)

def State.place (state : State) : State :=
  { state with ahead := state.ahead.map (Token.place f), final := state.final.place f }

def Rule.place : {α : Type} → Rule α → Rule α
  | _, .modifiers node => .modifiers (node.place f)
  | _, .connectiveRest left => .connectiveRest (left.place f)
  | _, .binaryRest least left => .binaryRest least (left.place f)
  | _, .trailers base => .trailers (base.place f)
  | _, .code tokens pos => .code (tokens.map (Token.place f)) (f pos)
  | _, rule => rule

variable {α β γ δ : Type}

/-- `placed` does with mapped positions what `parser` does, up to `view`. -/
def Natural (view : α → β) (parser : Parser α) (placed : Parser β) : Prop :=
  ∀ state, (placed.run (state.place f)).toOption = (parser.run state).toOption.map (Prod.map view (State.place f))

abbrev placeNodes : List Node → List Node :=
  List.map (Node.place f)

abbrev placePairs : List (Node × Node) → List (Node × Node) :=
  List.map (Prod.map (Node.place f) (Node.place f))

/-- The positions in what a rule reads. -/
def Rule.view : {α : Type} → Rule α → α → α
  | _, .statements _ | _, .whens | _, .rescues | _, .exceptions => placeNodes f
  | _, .statement | _, .modifiers _ | _, .connective | _, .connectiveRest _ | _, .negation | _, .expression
  | _, .choice | _, .binary _ | _, .binaryRest _ _ | _, .unary | _, .operand | _, .trailers _ | _, .branch =>
    Node.place f
  | _, .arguments _ _ => Prod.map (placeNodes f) (placePairs f)
  | _, .adjacent => List.map (Piece.place f)
  | _, .code _ _ => Piece.place f
  | _, .pairs => placePairs f
  | _, .blockNames | _, .params _ | _, .targets | _, .constantNames => id

/-- Parsers of all rules that do not look at positions. -/
def NaturalRules (parse : Rules) : Prop :=
  ∀ {α : Type} (rule : Rule α), Natural f (rule.view f) (parse rule) (parse (rule.place f))

namespace NaturalRules

variable {f} {parse : Rules} (rules : NaturalRules f parse)
include rules

theorem node (rule : Rule Node) (reads : rule.view f = Node.place f) :
    Natural f (Node.place f) (parse rule) (parse (rule.place f)) :=
  reads ▸ rules rule

theorem nodes (rule : Rule (List Node)) (reads : rule.view f = placeNodes f) :
    Natural f (placeNodes f) (parse rule) (parse (rule.place f)) :=
  reads ▸ rules rule

theorem arguments (closer : Option Bracket) (named : Bool) :
    Natural f (Prod.map (placeNodes f) (placePairs f)) (parse (.arguments closer named))
      (parse (.arguments closer named)) :=
  rules (.arguments closer named)

theorem adjacent : Natural f (List.map (Piece.place f)) (parse .adjacent) (parse .adjacent) :=
  rules .adjacent

theorem code (tokens : List Token) (pos : Position) : Natural f (Piece.place f) (parse (.code tokens pos))
    (parse (.code (tokens.map (Token.place f)) (f pos))) :=
  rules (.code tokens pos)

theorem pairs : Natural f (placePairs f) (parse .pairs) (parse .pairs) :=
  rules .pairs

theorem names (rule : Rule (List String)) (reads : rule.view f = id) :
    Natural f id (parse rule) (parse (rule.place f)) :=
  reads ▸ rules rule

end NaturalRules

namespace Natural

variable {f} {view : α → β} {view' : γ → δ} {p : Parser α} {q : Parser β}

theorem pure {a : α} {b : β} (h : view a = b) : Natural f view (Pure.pure a) (Pure.pure b) := by
  intro state
  rw [← h]
  rfl

theorem bind {next : α → Parser γ} {next' : β → Parser δ} (h : Natural f view p q)
    (hnext : ∀ a, Natural f view' (next a) (next' (view a))) : Natural f view' (p >>= next) (q >>= next') := by
  intro state
  have first := h state
  simp only [StateT.run_bind]
  cases hp : p.run state with
  | error fault =>
    cases hq : q.run (state.place f) with
    | error other => simp [Except.toOption, Bind.bind, Except.bind]
    | ok result => simp [hp, hq, Except.toOption] at first
  | ok result =>
    cases hq : q.run (state.place f) with
    | error other => simp [hp, hq, Except.toOption] at first
    | ok other =>
      obtain rfl : other = Prod.map view (State.place f) result := by simpa [hp, hq, Except.toOption] using first
      exact hnext result.1 result.2

theorem map {g : α → γ} {g' : β → δ} (h : Natural f view p q) (hg : ∀ a, view' (g a) = g' (view a)) :
    Natural f view' (g <$> p) (g' <$> q) := by
  rw [map_eq_pure_bind, map_eq_pure_bind]
  exact h.bind fun a => .pure (hg a)

theorem discard (h : Natural f view p q) : Natural f id (discard p) (discard q) :=
  h.map fun _ => rfl

theorem ite {test : Prop} {_ : Decidable test} {p' : Parser α} {q' : Parser β} (h : Natural f view p q)
    (h' : Natural f view p' q') : Natural f view (if test then p else p') (if test then q else q') := by
  split
  · exact h
  · exact h'

theorem throw {fault other : ReadError} :
    Natural f view (throw fault : Parser α) (MonadExcept.throw other : Parser β) :=
  fun _ => rfl

theorem modify {g g' : State → State} (h : ∀ state, g' (state.place f) = (g state).place f) :
    Natural f id (modify g) (modify g') := by
  intro state
  exact congrArg (fun state => some ((), state)) (h state)

theorem get : Natural f (State.place f) get get :=
  fun _ => rfl

theorem set (state : State) : Natural f id (set state) (set (state.place f)) :=
  fun _ => rfl

theorem forM {run : γ → Parser Unit} (h : ∀ item, Natural f id (run item) (run item)) (items : List γ) :
    Natural f id (items.forM run) (items.forM run) := by
  induction items with
  | nil => exact .pure rfl
  | cons item rest ih => exact (h item).bind fun _ => ih

theorem mapM {run : α → Parser γ} {run' : β → Parser δ}
    (h : ∀ item, Natural f view' (run item) (run' (view item))) (items : List α) :
    Natural f (List.map view') (items.mapM run) ((items.map view).mapM run') := by
  induction items with
  | nil => exact .pure rfl
  | cons item rest ih =>
    rw [List.map_cons, List.mapM_cons, List.mapM_cons]
    exact (h item).bind fun first => ih.bind fun more => .pure rfl

end Natural

/-! Tokens -/

variable {f}

theorem headD_place (tokens : List Token) (final : Token) :
    (tokens.map (Token.place f)).headD (final.place f) = (tokens.headD final).place f := by
  cases tokens <;> rfl

theorem natural_peek : Natural f (Token.place f) peek peek :=
  Natural.get.bind fun _ => .pure (headD_place _ _).symm

theorem natural_peekSecond : Natural f (Token.place f) peekSecond peekSecond := by
  refine Natural.get.bind fun state => .pure ?_
  rw [State.place, ← List.map_tail, headD_place]

theorem natural_advance : Natural f (Token.place f) advance advance := by
  refine natural_peek.bind fun token => (Natural.modify fun state => ?_).bind fun _ => .pure rfl
  simp [State.place, List.map_tail]

theorem natural_malformed {view : α → β} {cause cause' : Cause} {pos pos' : Position} :
    Natural f view (malformed cause pos) (malformed cause' pos') :=
  .throw

theorem natural_complainAt {view : α → β} {complaint : Complaint} {token token' : Token} :
    Natural f view (complainAt complaint token) (complainAt complaint token') :=
  .throw

theorem natural_complain {view : α → β} {complaint : Complaint} :
    Natural f view (complain complaint) (complain complaint) :=
  natural_peek.bind fun _ => natural_complainAt

theorem natural_complain_bind {view : γ → δ} {complaint : Complaint} {next : α → Parser γ} {next' : β → Parser δ} :
    Natural f view (complain complaint >>= next) (complain complaint >>= next') := by
  have fails (next : α → Parser γ) : (complain complaint >>= next) = complain complaint := rfl
  have fails' (next : β → Parser δ) : (complain complaint >>= next) = complain complaint := rfl
  rw [fails, fails']
  exact natural_complain

theorem natural_check {test : Lexeme Token → Bool} (h : Blind f test) : Natural f id (check test) (check test) :=
  natural_peek.bind fun token => .pure (by simp [h token.lexeme])

theorem blind_isKeyword (word : String) : Blind f (Lexeme.isKeyword word) :=
  blind_of_strings (fun _ => rfl) fun _ => rfl

theorem blind_keyword? : Blind f Lexeme.keyword? :=
  blind_of_strings (fun _ => rfl) fun _ => rfl

theorem blind_operator? : Blind f Lexeme.operator? :=
  blind_of_strings (fun _ => rfl) fun _ => rfl

theorem blind_isOperator (spelling : String) : Blind f (Lexeme.isOperator spelling) :=
  blind_of_strings (fun _ => rfl) fun _ => rfl

theorem blind_isOpening (bracket : Bracket) : Blind f (Lexeme.isOpening bracket) :=
  blind_of_strings (fun _ => rfl) fun _ => rfl

theorem blind_isClosing (bracket : Bracket) : Blind f (Lexeme.isClosing bracket) :=
  blind_of_strings (fun _ => rfl) fun _ => rfl

theorem blind_isNewline : Blind f Lexeme.isNewline :=
  blind_of_strings (fun _ => rfl) fun _ => rfl

theorem blind_isSeparator : Blind f Lexeme.isSeparator :=
  blind_of_strings (fun _ => rfl) fun _ => rfl

theorem blind_isComma : Blind f Lexeme.isComma :=
  blind_of_strings (fun _ => rfl) fun _ => rfl

theorem blind_isArrow : Blind f Lexeme.isArrow :=
  blind_of_strings (fun _ => rfl) fun _ => rfl

theorem blind_meets (stop : Stop) : Blind f stop.meets :=
  blind_of_strings (fun _ => rfl) fun _ => rfl

theorem natural_consume {test : Lexeme Token → Bool} (h : Blind f test) (complaint : Complaint) :
    Natural f id (consume test complaint) (consume test complaint) :=
  (natural_check h).bind fun _ => .ite natural_advance.discard natural_complain

theorem natural_consumeWord (word : String) : Natural f id (consumeWord word) (consumeWord word) :=
  natural_consume (blind_isKeyword word) _

theorem natural_checkWord (word : String) : Natural f id (checkWord word) (checkWord word) :=
  natural_check (blind_isKeyword word)

theorem natural_skipWord (word : String) : Natural f id (skipWord word) (skipWord word) :=
  (natural_checkWord word).bind fun _ => .ite natural_advance.discard (.pure rfl)

theorem natural_consumeIdentifier (complaint : Complaint) :
    Natural f id (consumeIdentifier complaint) (consumeIdentifier complaint) := by
  refine natural_peek.bind fun token => ?_
  rw [Token.lexeme_place]
  cases token.lexeme with
  | identifier name => exact natural_advance.discard.bind fun _ => .pure rfl
  | _ => exact natural_complain

theorem natural_consumeConstant (complaint : Complaint) :
    Natural f id (consumeConstant complaint) (consumeConstant complaint) := by
  refine natural_peek.bind fun token => ?_
  rw [Token.lexeme_place]
  cases token.lexeme with
  | constant name => exact natural_advance.discard.bind fun _ => .pure rfl
  | _ => exact natural_complain

theorem natural_skipWhile {test : Lexeme Token → Bool} (h : Blind f test) :
    Natural f id (skipWhile test) (skipWhile test) := by
  refine .modify fun state => ?_
  have same : (fun token : Token => test token.lexeme) ∘ Token.place f = fun token => test token.lexeme := by
    funext token
    rw [Function.comp_apply, Token.lexeme_place, h]
  simp only [State.place, List.dropWhile_map, same]

theorem natural_skipNewlines : Natural f id skipNewlines skipNewlines :=
  natural_skipWhile blind_isNewline

theorem natural_skipSeparators : Natural f id skipSeparators skipSeparators :=
  natural_skipWhile blind_isSeparator

theorem natural_atStop (stop : Stop) : Natural f id (atStop stop) (atStop stop) :=
  natural_check (blind_meets stop)

/-! Scopes and the place of `do` -/

theorem natural_isLocal (name : String) : Natural f id (isLocal name) (isLocal name) :=
  Natural.get.bind fun _ => .pure rfl

theorem natural_declare (name : String) : Natural f id (declare name) (declare name) :=
  .modify fun _ => rfl

section Within

variable {view : α → β} {p : Parser α} {q : Parser β}

theorem Natural.inScope (hard : Bool) (h : Natural f view p q) :
    Natural f view (inScope hard p) (Grammar.inScope hard q) := by
  refine Natural.bind (.modify ?_) fun _ => h.bind fun _ => Natural.bind (.modify ?_) fun _ => .pure rfl
  · exact fun _ => rfl
  · exact fun _ => rfl

theorem Natural.enclosed (h : Natural f view p q) : Natural f view (enclosed p) (Grammar.enclosed q) := by
  refine Natural.get.bind fun state => Natural.bind (.modify ?_) fun _ => h.bind fun _ =>
    Natural.bind (.modify ?_) fun _ => .pure rfl
  · exact fun _ => rfl
  · exact fun _ => rfl

theorem Natural.leavingDo (h : Natural f view p q) : Natural f view (leavingDo p) (Grammar.leavingDo q) := by
  refine Natural.bind (.modify ?_) fun _ => h.bind fun _ => Natural.bind (.modify ?_) fun _ => .pure rfl
  · exact fun _ => rfl
  · exact fun _ => rfl

end Within

/-! What may come next -/

theorem blind_beginsArgument : Blind f beginsArgument :=
  blind_of_strings (fun _ => rfl) fun _ => rfl

theorem blind_bindsArgument : Blind f bindsArgument :=
  blind_of_strings (fun _ => rfl) fun _ => rfl

theorem natural_atArgument : Natural f id atArgument atArgument := by
  refine natural_peek.bind fun token => natural_peekSecond.bind fun second => .pure ?_
  simp only [Token.lexeme_place, Token.spaced_place, id_eq, blind_beginsArgument token.lexeme,
    blind_bindsArgument token.lexeme, blind_isNewline second.lexeme]

theorem natural_atCallParen : Natural f id atCallParen atCallParen := by
  refine natural_peek.bind fun token => .pure ?_
  simp only [Token.lexeme_place, Token.spaced_place, id_eq, blind_isOpening Bracket.round token.lexeme]

end Formulary.Grammar
