import Formulary.Proofs.Grammar.Parses

/-!
Statements that are a single call without a receiver. What follows an operand, an expression or a statement makes
another node of it, and such a call is none of these nodes, so that nothing follows it.
-/

namespace Formulary.Grammar

variable {α : Type}

/-- A call without a receiver. -/
def isOwnCall : Node → Bool
  | .call _ _ none _ _ _ => true
  | _ => false

/-- A parser whose nodes are no calls without a receiver. -/
def Foreign (p : Parser Node) : Prop :=
  ∀ ⦃state after node⦄, p.run state = .ok (node, after) → isOwnCall node = false

/-- A parser that makes another node of one, unless it reads nothing. -/
def Enlarges (node : Node) (p : Parser Node) : Prop :=
  ∀ ⦃state after result⦄, p.run state = .ok (result, after) → (result = node ∧ after = state) ∨ isOwnCall result = false

namespace Foreign

variable {p q : Parser Node} {node : Node}

theorem bind {first : Parser α} {next : α → Parser Node} (h : ∀ value, Foreign (next value)) :
    Foreign (first >>= next) := by
  intro state after node run
  obtain ⟨value, middle, -, second⟩ := run_bind_eq_ok_iff.1 run
  exact h value second

theorem of_first {next : Node → Parser Node} (first : Foreign p)
    (h : ∀ node, isOwnCall node = false → Foreign (next node)) : Foreign (p >>= next) := by
  intro state after node run
  obtain ⟨value, middle, made, second⟩ := run_bind_eq_ok_iff.1 run
  exact h value (first made) second

theorem pure (h : isOwnCall node = false) : Foreign (Pure.pure node) := by
  intro state after result run
  obtain ⟨rfl, -⟩ := Prod.mk.inj (Except.ok.inj run)
  exact h

theorem of_fails (h : ∀ state result, p.run state ≠ .ok result) : Foreign p :=
  fun _ _ _ run => absurd run (h _ _)

theorem ite {test : Prop} {_ : Decidable test} (h : Foreign p) (h' : Foreign q) : Foreign (if test then p else q) := by
  split
  · exact h
  · exact h'

end Foreign

namespace Enlarges

variable {p q : Parser Node} {node : Node}

theorem of_foreign (h : Foreign p) : Enlarges node p :=
  fun _ _ _ run => .inr (h run)

theorem pure (node : Node) : Enlarges node (Pure.pure node) := by
  intro state after result run
  obtain ⟨rfl, rfl⟩ := Prod.mk.inj (Except.ok.inj run)
  exact .inl ⟨rfl, rfl⟩

theorem peek {next : Token → Parser Node} (h : ∀ token, Enlarges node (next token)) : Enlarges node (peek >>= next) :=
  fun state _ _ run => h state.next run

theorem check {test : Lexeme Token → Bool} {next : Bool → Parser Node} (h : ∀ found, Enlarges node (next found)) :
    Enlarges node (check test >>= next) :=
  fun state _ _ run => h (test state.next.lexeme) run

theorem ite {test : Prop} {_ : Decidable test} (h : Enlarges node p) (h' : Enlarges node q) :
    Enlarges node (if test then p else q) := by
  split
  · exact h
  · exact h'

theorem foreign (h : Enlarges node p) (other : isOwnCall node = false) : Foreign p := by
  intro state after result run
  obtain ⟨rfl, -⟩ | made := h run
  · exact other
  · exact made

/-- A call without a receiver was there before what follows was looked at. -/
theorem run_first {next : Node → Parser Node} {state after : State} (h : ∀ node, Enlarges node (next node))
    (run : (p >>= next).run state = .ok (node, after)) (own : isOwnCall node = true) :
    p.run state = .ok (node, after) := by
  obtain ⟨value, middle, first, second⟩ := run_bind_eq_ok_iff.1 run
  obtain ⟨rfl, rfl⟩ | made := h value second
  · exact first
  · exact nomatch made.symm.trans own

end Enlarges

/-- Rules for what follows a node. -/
structure EnlargingRules (parse : Rules) : Prop where
  trailers (base : Node) : Enlarges base (parse (.trailers base))
  binaryRest (least : Nat) (left : Node) : Enlarges left (parse (.binaryRest least left))
  connectiveRest (left : Node) : Enlarges left (parse (.connectiveRest left))
  modifiers (node : Node) : Enlarges node (parse (.modifiers node))

section Constructs

variable {parse : Rules}

theorem foreign_callRest (name : String) (receiver : Node) (pos : Position) :
    Foreign (callRest parse name (some receiver) pos) := by
  have built (args : List Node) (parens : Bool) : Foreign
      (do return Node.call pos name (some receiver) args (← blockOption parse) parens) := .bind fun _ => .pure rfl
  refine .bind fun parens => .bind fun begins => .ite (.bind fun _ => .bind fun args => built args parens) ?_
  exact .ite (.bind fun args => built args parens) (built [] parens)

theorem foreign_colonTrailer (base : Node) : Foreign (colonTrailer parse base) := by
  refine .bind fun token => .bind fun called => ?_
  cases token.lexeme with
  | constant name => exact .ite (foreign_callRest name base base.pos) (.pure rfl)
  | identifier name => exact foreign_callRest name base base.pos
  | _ => exact .of_fails fun _ _ => nofun

variable (rules : EnlargingRules parse)
include rules

theorem enlarges_trailers (base : Node) : Enlarges base (trailers parse base) := by
  have more (node : Node) (other : isOwnCall node = false) : Foreign (parse (.trailers node)) :=
    (rules.trailers node).foreign other
  refine .peek fun token => .ite (.of_foreign ?_) (.ite (.of_foreign ?_) (.ite (.of_foreign ?_) (.pure base)))
  · refine .bind fun _ => .bind fun _ => .bind fun token => ?_
    cases methodName? token.lexeme with
    | none => exact .of_fails fun _ _ => nofun
    | some word => exact .of_first (foreign_callRest word base base.pos) more
  · exact .bind fun _ => .of_first (foreign_colonTrailer base) more
  · exact .bind fun _ => .bind fun args => more (.index base.pos base args) rfl

theorem enlarges_binaryRest (least : Nat) (left : Node) : Enlarges left (binaryRest parse least left) := by
  refine .peek fun token => ?_
  cases token.lexeme.operator? with
  | none => exact .pure left
  | some op =>
    dsimp only
    cases precedence? op with
    | none => exact .pure left
    | some precedence =>
      refine .ite (.pure left) (.of_foreign (.bind fun _ => .bind fun _ => .bind fun right => ?_))
      exact (rules.binaryRest least (.binary left.pos op left right)).foreign rfl

theorem enlarges_connectiveRest (left : Node) : Enlarges left (connectiveRest parse left) := by
  refine .peek fun token => ?_
  cases token.lexeme.keyword? with
  | none => exact .pure left
  | some word =>
    refine .ite (.of_foreign (.bind fun _ => .bind fun _ => .bind fun right => ?_)) (.pure left)
    exact (rules.connectiveRest (.binary left.pos word left right)).foreign rfl

theorem enlarges_modifiers (node : Node) : Enlarges node (modifiers parse node) := by
  refine .peek fun token => ?_
  dsimp only
  split
  case h_6 => exact .pure node
  all_goals exact .of_foreign (.bind fun _ => .bind fun _ => (rules.modifiers _).foreign rfl)

theorem enlargingRules_step : EnlargingRules (step parse) where
  trailers := enlarges_trailers rules
  binaryRest := enlarges_binaryRest rules
  connectiveRest := enlarges_connectiveRest rules
  modifiers := enlarges_modifiers rules

end Constructs

theorem enlargingRules_rule (fuel : Nat) : EnlargingRules (rule fuel) := by
  induction fuel with
  | zero => exact ⟨nofun, nofun, nofun, nofun⟩
  | succ fuel ih => exact enlargingRules_step ih

section Expressions

variable {parse : Rules} {state after : State} {node : Node} (own : isOwnCall node = true)
include own

theorem choice_of_expression (run : (expression parse).run state = .ok (node, after)) :
    (parse .choice).run state = .ok (node, after) := by
  refine Enlarges.run_first (fun target => .peek fun token => ?_) run own
  cases token.lexeme.operator? with
  | none => exact .pure target
  | some op =>
    refine .ite (.of_foreign (.bind fun _ => .bind fun _ => .bind fun _ => .bind fun _ => .pure rfl)) ?_
    exact .ite (.of_foreign (.bind fun _ => .bind fun _ => .bind fun _ => .bind fun _ => .pure rfl)) (.pure target)

theorem range_of_choice (run : (choice parse).run state = .ok (node, after)) :
    (range parse).run state = .ok (node, after) := by
  refine Enlarges.run_first (fun cond => .check fun found => .ite (.of_foreign ?_) (.pure cond)) run own
  exact .bind fun _ => .bind fun _ => .bind fun _ => .bind fun _ => .bind fun _ => .bind fun _ => .bind fun _ =>
    .pure rfl

theorem binary_of_range (run : (range parse).run state = .ok (node, after)) :
    (parse (.binary 0)).run state = .ok (node, after) := by
  refine Enlarges.run_first (fun low => .peek fun token => .ite (.of_foreign ?_) (.pure low)) run own
  exact .bind fun _ => .bind fun _ => .ite (.pure rfl) (.bind fun _ => .pure rfl)

end Expressions

theorem Parses.exists_step {r : Rule α} {state after : State} {value : α} (h : Parses r state value after) :
    ∃ fuel, (step (rule fuel) r).run state = .ok (value, after) := by
  obtain ⟨fuel, run⟩ := h
  cases fuel with
  | zero => cases run
  | succ fuel => exact ⟨fuel, run⟩

/-- A statement that is a single call without a receiver is read as the beginning of an operand. -/
theorem primary_of_statement {state after : State} {node : Node} (read : Parses .statement state node after)
    (own : isOwnCall node = true) (word : state.next.lexeme.isKeyword "not" = false)
    (sign : state.next.lexeme.operator? = none) : ∃ fuel, (primary (rule fuel)).run state = .ok (node, after) := by
  obtain ⟨fuel, statement⟩ := read.exists_step
  have connective : Parses .connective state node after :=
    ⟨fuel, Enlarges.run_first (enlargingRules_rule fuel).modifiers statement own⟩
  obtain ⟨fuel, connective⟩ := connective.exists_step
  have negation : Parses .negation state node after :=
    ⟨fuel, Enlarges.run_first (enlargingRules_rule fuel).connectiveRest connective own⟩
  obtain ⟨fuel, negation⟩ := negation.exists_step
  have expression : Parses .expression state node after := by
    change (Grammar.negation (rule fuel)).run state = _ at negation
    rw [Grammar.negation, run_bind_of_ok (run_peek state), word] at negation
    exact ⟨fuel, negation⟩
  obtain ⟨fuel, expression⟩ := expression.exists_step
  have choice : Parses .choice state node after := ⟨fuel, choice_of_expression own expression⟩
  obtain ⟨fuel, choice⟩ := choice.exists_step
  have binary : Parses (.binary 0) state node after := ⟨fuel, binary_of_range own (range_of_choice own choice)⟩
  obtain ⟨fuel, binary⟩ := binary.exists_step
  have unary : Parses .unary state node after :=
    ⟨fuel, Enlarges.run_first ((enlargingRules_rule fuel).binaryRest 0) binary own⟩
  obtain ⟨fuel, unary⟩ := unary.exists_step
  have operand : Parses .operand state node after := by
    change (Grammar.unary (rule fuel)).run state = _ at unary
    rw [Grammar.unary, run_bind_of_ok (run_peek state), sign] at unary
    exact ⟨fuel, unary⟩
  obtain ⟨fuel, operand⟩ := operand.exists_step
  exact ⟨fuel, Enlarges.run_first (enlargingRules_rule fuel).trailers operand own⟩

end Formulary.Grammar
