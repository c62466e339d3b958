import Formulary.Proofs.Grammar.Run

/-! To a rule that begins with an operand it makes no difference whether a blank stands before its first token. -/

namespace Formulary.Grammar

variable {α β : Type}

/-- A parser that does the same whether or not a blank stands before the first token. -/
def IgnoresBlank (p : Parser α) : Prop :=
  ∀ (state : State) (token : Token) (tokens : List Token) (spaced : Bool),
    p.run (state.on ({ token with spaced } :: tokens)) = p.run (state.on (token :: tokens))

namespace IgnoresBlank

variable {p q : Parser α} {next : α → Parser β}

theorem bind (h : IgnoresBlank p) : IgnoresBlank (p >>= next) := by
  intro state token tokens spaced
  rw [StateT.run_bind, StateT.run_bind, h]

theorem advance {next : Token → Parser α} (same : ∀ token spaced, next { token with spaced } = next token) :
    IgnoresBlank (advance >>= next) := by
  intro state token tokens spaced
  rw [run_bind_of_ok (run_advance _), run_bind_of_ok (run_advance _), State.next_on_cons, State.next_on_cons, same]
  rfl

theorem skip {next : Unit → Parser α} : IgnoresBlank (discard Grammar.advance >>= next) :=
  fun _ _ _ _ => rfl

theorem peek {next : Token → Parser α} (same : ∀ token spaced, next { token with spaced } = next token)
    (h : ∀ token, IgnoresBlank (next token)) : IgnoresBlank (peek >>= next) := by
  intro state token tokens spaced
  rw [run_bind_of_ok (run_peek _), run_bind_of_ok (run_peek _), State.next_on_cons, State.next_on_cons, same]
  exact h token state token tokens spaced

theorem ite {test : Prop} {_ : Decidable test} (h : IgnoresBlank p) (h' : IgnoresBlank q) :
    IgnoresBlank (if test then p else q) := by
  split
  · exact h
  · exact h'

theorem complain (complaint : Complaint) : IgnoresBlank (complain complaint : Parser α) :=
  fun _ _ _ _ => rfl

end IgnoresBlank

/-- Whether a rule begins with an operand, or with a word that begins one. -/
def Rule.begins : Rule α → Bool
  | .expression | .choice | .binary _ | .unary | .operand | .arguments .. | .branch => true
  | _ => false

def RulesIgnoreBlank (parse : Rules) : Prop :=
  ∀ {α : Type} (r : Rule α), r.begins = true → IgnoresBlank (parse r)

section Constructs

variable {parse : Rules} (rules : RulesIgnoreBlank parse)
include rules

theorem ignoresBlank_keyword (token : Token) (word : String) : IgnoresBlank (keyword parse token word) := by
  unfold keyword
  split
  case h_1 | h_2 | h_3 | h_4 | h_5 | h_21 => exact .skip
  case h_6 | h_7 => exact rules .branch rfl
  case h_22 => exact .complain _
  all_goals exact .advance fun _ _ => rfl

theorem ignoresBlank_primary : IgnoresBlank (primary parse) := by
  refine .peek (fun _ _ => rfl) fun token => ?_
  cases found : token.lexeme with
  | keyword word => exact ignoresBlank_keyword rules token word
  | opening bracket =>
    cases bracket with
    | round | square => exact .skip
    | curly => exact .advance fun _ _ => rfl
  | operator spelling =>
    split
    all_goals first | contradiction | exact .complain _
  | closing _ | arrow | comma | dot | safeDot | question | colon | semicolon | newline | endOfText | label _ =>
    exact .complain _
  | _ => exact .skip

theorem ignoresBlank_unary : IgnoresBlank (unary parse) := by
  refine .peek (fun _ _ => rfl) fun token => ?_
  cases token.lexeme.operator? with
  | none => exact rules .operand rfl
  | some op => exact .ite .skip (.ite .skip (rules .operand rfl))

theorem ignoresBlank_argument (named : Bool) : IgnoresBlank (argument parse named) := by
  refine .peek (fun _ _ => rfl) fun token => ?_
  cases token.lexeme with
  | label name => exact .skip
  | operator spelling =>
    split
    · contradiction
    · exact .skip
    · exact .skip
    · exact .skip
    · exact .bind (rules .expression rfl)
  | _ => exact .bind (rules .expression rfl)

theorem rulesIgnoreBlank_step : RulesIgnoreBlank (step parse) := by
  intro α r begins
  cases r with
  | expression => exact .bind (rules .choice rfl)
  | choice => exact .bind (.bind (rules (.binary 0) rfl))
  | binary least => exact .bind (rules .unary rfl)
  | unary => exact ignoresBlank_unary rules
  | operand => exact .bind (ignoresBlank_primary rules)
  | arguments closer named => exact .bind (ignoresBlank_argument rules named)
  | branch => exact .advance fun _ _ => rfl
  | _ => cases begins

end Constructs

theorem rulesIgnoreBlank_rule (fuel : Nat) : RulesIgnoreBlank (rule fuel) := by
  induction fuel with
  | zero => exact fun r _ state token tokens spaced => rfl
  | succ fuel ih => exact rulesIgnoreBlank_step ih

end Formulary.Grammar
