import Formulary.Proofs.Grammar.Run

/-! Tokens at which no operand begins: there nothing is read that needs one. -/

namespace Formulary.Grammar

variable {α β : Type}

/-- A closing parenthesis, the bar that stands around a block's parameters, or the end of the text. -/
inductive Barren : Lexeme Token → Prop
  | close : Barren (.closing .round)
  | bar : Barren (.operator "|")
  | ended : Barren .endOfText

/-- A parser that reads nothing from a barren token on. -/
def Refuses (p : Parser α) : Prop :=
  ∀ ⦃state⦄, Barren state.next.lexeme → ∀ result, p.run state ≠ .ok result

namespace Refuses

variable {p : Parser α} {next : α → Parser β}

theorem bind (h : Refuses p) : Refuses (p >>= next) := by
  intro state barren result run
  obtain ⟨value, middle, first, -⟩ := run_bind_eq_ok_iff.1 run
  exact h barren _ first

theorem look {next : Token → Parser α} (h : ∀ token, Barren token.lexeme → Refuses (next token)) :
    Refuses (peek >>= next) := by
  intro state barren result run
  rw [run_bind_of_ok (run_peek state)] at run
  exact h _ barren barren _ run

theorem check {test : Lexeme Token → Bool} {next : Bool → Parser α}
    (fails : ∀ {lexeme}, Barren lexeme → test lexeme = false) (h : Refuses (next false)) : Refuses (check test >>= next) := by
  intro state barren result run
  rw [run_bind_of_ok (run_check state test), fails barren] at run
  exact h barren _ run

theorem complain (complaint : Complaint) : Refuses (complain complaint : Parser α) :=
  fun _ _ _ => nofun

end Refuses

/-- Whether a rule begins with an operand. -/
def Rule.leads : Rule α → Bool
  | .statement | .connective | .negation | .expression | .choice | .binary _ | .unary | .operand => true
  | .arguments .. | .pairs => true
  | _ => false

def RefusingRules (parse : Rules) : Prop :=
  ∀ {α : Type} (r : Rule α), r.leads = true → Refuses (parse r)

section Constructs

variable {parse : Rules}

theorem refuses_primary : Refuses (primary parse) := by
  refine .look fun token barren => ?_
  obtain ⟨lexeme, pos, spaced⟩ := token
  cases barren <;> exact .complain _

variable (rules : RefusingRules parse)
include rules

theorem refuses_negation : Refuses (negation parse) := by
  refine .look fun token barren => ?_
  obtain ⟨lexeme, pos, spaced⟩ := token
  cases barren <;> exact rules .expression rfl

theorem refuses_unary : Refuses (unary parse) := by
  refine .look fun token barren => ?_
  obtain ⟨lexeme, pos, spaced⟩ := token
  cases barren <;> exact rules .operand rfl

theorem refuses_argument (named : Bool) : Refuses (argument parse named) := by
  refine .look fun token barren => ?_
  obtain ⟨lexeme, pos, spaced⟩ := token
  cases barren <;> exact Refuses.bind (rules .expression rfl)

theorem refuses_hashKey : Refuses (hashKey parse) := by
  refine .look fun token barren => ?_
  obtain ⟨lexeme, pos, spaced⟩ := token
  cases barren <;> exact Refuses.bind (rules .expression rfl)

theorem refusingRules_step : RefusingRules (step parse) := by
  intro α r leads
  cases r with
  | statement => exact Refuses.bind (rules .connective rfl)
  | connective => exact Refuses.bind (rules .negation rfl)
  | negation => exact refuses_negation rules
  | expression => exact Refuses.bind (rules .choice rfl)
  | choice => exact Refuses.bind (Refuses.bind (rules (.binary 0) rfl))
  | binary least => exact Refuses.bind (rules .unary rfl)
  | unary => exact refuses_unary rules
  | operand => exact Refuses.bind refuses_primary
  | arguments closer named => exact Refuses.bind (refuses_argument rules named)
  | pairs =>
    refine Refuses.check (fun barren => ?_) (Refuses.bind (refuses_hashKey rules))
    cases barren <;> rfl
  | _ => cases leads

/-- A list of statements that no bar may end does not begin with one. -/
theorem refuses_statements {stop : Stop} {state : State} (bar : state.next.lexeme = .operator "|") :
    ∀ result, (statements parse stop).run state ≠ .ok result := by
  intro result run
  have other : state.next.lexeme.isSeparator = false := by
    rw [bar]
    rfl
  have stops : stop.meets state.next.lexeme = false := by
    rw [bar]
    rfl
  rw [statements, skipSeparators, run_bind_of_ok (run_skipWhile_of_not other), run_bind_of_ok (run_atStop state stop),
    stops] at run
  have barren : Barren state.next.lexeme := by
    rw [bar]
    exact .bar
  exact Refuses.bind (rules .statement rfl) barren _ run

end Constructs

theorem refusingRules_rule (fuel : Nat) : RefusingRules (rule fuel) := by
  induction fuel with
  | zero => exact fun r _ state _ result => nofun
  | succ fuel ih => exact refusingRules_step ih

end Formulary.Grammar
