import Formulary.Token

/-!
How deep a token stands in brackets. Braces, brackets and parentheses count, but for what stands between the bars around
a block's parameters: the parentheses there group nothing.
-/

namespace Formulary.Grammar

/-- What a token means beyond its own spelling, by the tokens before it. -/
inductive Spot where
  | plain
  /-- Behind a dot or `def`, where a word is a method's name. -/
  | naming
  /-- Where a block may begin, and a bar its parameters. -/
  | begun
  /-- Between the bars around a block's parameters. -/
  | params
deriving DecidableEq

/-- The spot behind a token that means what it spells. -/
def spotBehind : Lexeme Token → Spot
  | .opening bracket => if bracket = .curly then .begun else .plain
  | .keyword word => if word = "do" then .begun else if word = "def" then .naming else .plain
  | .dot | .safeDot => .naming
  | _ => .plain

def Spot.next (spot : Spot) (lexeme : Lexeme Token) : Spot :=
  match spot with
  | .plain => spotBehind lexeme
  | .naming => if lexeme.isNewline then .naming else if lexeme.keyword?.isSome then .plain else spotBehind lexeme
  | .begun => if lexeme.isOperator "|" then .params else spotBehind lexeme
  | .params => if lexeme.isOperator "|" then .plain else .params

/-- A place between tokens: how many brackets are open there, and its spot. -/
structure Nest where
  depth : Nat
  spot : Spot

namespace Nest

/-- A place inside `more` brackets that are not counted otherwise. -/
def inside (more : Nat) (nest : Nest) : Nest :=
  ⟨more + nest.depth, nest.spot⟩

/-- The place behind a token. A bracket that was never opened is not closed. -/
def after (nest : Nest) (lexeme : Lexeme Token) : Option Nest :=
  if nest.spot = .params then some ⟨nest.depth, nest.spot.next lexeme⟩
  else match lexeme with
    | .opening _ => some ⟨nest.depth + 1, nest.spot.next lexeme⟩
    | .closing _ => match nest.depth with
      | 0 => none
      | depth + 1 => some ⟨depth, nest.spot.next lexeme⟩
    | _ => some ⟨nest.depth, nest.spot.next lexeme⟩

/-- The place behind some tokens. -/
def across (nest : Nest) (tokens : List Token) : Option Nest :=
  tokens.foldlM (fun nest token => nest.after token.lexeme) nest

/-- Whether tokens hold no newline and no `do` outside nested brackets. -/
def shelters (nest : Nest) : List Token → Bool
  | [] => true
  | token :: rest =>
    (nest.depth ≠ 0 || !(token.lexeme.isNewline || token.lexeme.isKeyword "do")) &&
      (nest.after token.lexeme).all fun next => next.shelters rest

/-- The place where no bracket is open. -/
abbrev outside : Nest :=
  ⟨0, .plain⟩

/-- The place inside one bracket. -/
abbrev within : Nest :=
  ⟨1, .plain⟩

variable {nest next : Nest} {used tokens : List Token} {token : Token}

@[simp]
theorem inside_zero (nest : Nest) : nest.inside 0 = nest := by
  rw [inside, Nat.zero_add]

theorem inside_inside (more others : Nat) (nest : Nest) :
    (nest.inside others).inside more = nest.inside (more + others) := by
  rw [inside, inside, inside, Nat.add_assoc]

theorem across_cons : nest.across (token :: tokens) = (nest.after token.lexeme).bind (·.across tokens) :=
  List.foldlM_cons

theorem across_append : nest.across (used ++ tokens) = (nest.across used).bind (·.across tokens) :=
  List.foldlM_append

theorem shelters_cons : nest.shelters (token :: tokens) = true ↔
    (nest.depth = 0 → token.lexeme.isNewline = false ∧ token.lexeme.isKeyword "do" = false) ∧
      ∀ next, nest.after token.lexeme = some next → next.shelters tokens = true := by
  rw [shelters, Bool.and_eq_true, Option.all_eq_true]
  refine and_congr_left' ?_
  by_cases flat : nest.depth = 0
  · simp [flat]
  · simp [flat]

theorem isNewline_of_shelters (h : outside.shelters (token :: tokens) = true) : token.lexeme.isNewline = false :=
  ((shelters_cons.1 h).1 rfl).1

theorem shelters_of_across (h : nest.shelters (used ++ tokens) = true) (behind : nest.across used = some next) :
    next.shelters tokens = true := by
  induction used generalizing nest with
  | nil =>
    obtain rfl := Option.some.inj behind
    exact h
  | cons token used ih =>
    rw [across_cons] at behind
    obtain ⟨mid, here, there⟩ := Option.bind_eq_some_iff.1 behind
    exact ih ((shelters_cons.1 h).2 mid here) there

end Nest

/-- A token leads from one place to another, however deep both are. -/
def Steps (start : Nest) (lexeme : Lexeme Token) (finish : Nest) : Prop :=
  ∀ more, (start.inside more).after lexeme = some (finish.inside more)

/-- Tokens lead from one place to another, however deep both are. -/
def Spans (start : Nest) (tokens : List Token) (finish : Nest) : Prop :=
  ∀ more, (start.inside more).across tokens = some (finish.inside more)

variable {start mid finish : Nest} {token : Token} {used tokens : List Token}

theorem Spans.nil (nest : Nest) : Spans nest [] nest :=
  fun _ => rfl

theorem Steps.spans (h : Steps start token.lexeme finish) : Spans start [token] finish := by
  intro more
  rw [Nest.across_cons, h more]
  rfl

theorem Spans.append (h : Spans start used mid) (h' : Spans mid tokens finish) :
    Spans start (used ++ tokens) finish := by
  intro more
  rw [Nest.across_append, h more]
  exact h' more

theorem Spans.of_forall (h : ∀ token ∈ tokens, Steps start token.lexeme start) : Spans start tokens start := by
  induction tokens with
  | nil => exact Spans.nil start
  | cons token tokens ih =>
    obtain ⟨here, beside⟩ := List.forall_mem_cons.1 h
    exact here.spans.append (ih beside)

theorem Spans.inside (h : Spans start tokens finish) (depth : Nat) :
    Spans (start.inside depth) tokens (finish.inside depth) := by
  intro more
  rw [Nest.inside_inside, Nest.inside_inside]
  exact h (more + depth)

theorem Steps.inside {lexeme : Lexeme Token} (h : Steps start lexeme finish) (depth : Nat) :
    Steps (start.inside depth) lexeme (finish.inside depth) := by
  intro more
  rw [Nest.inside_inside, Nest.inside_inside]
  exact h (more + depth)

theorem Spans.across (h : Spans start tokens finish) : start.across tokens = some finish := by
  have outermost := h 0
  rwa [Nest.inside_zero, Nest.inside_zero] at outermost

/-! Tokens -/

/-- A token that is neither a bracket nor changes what the next one means. -/
def isSmooth : Lexeme Token → Bool
  | .opening _ | .closing _ | .dot | .safeDot => false
  | .keyword word => word ≠ "do" && word ≠ "def"
  | _ => true

theorem steps_of_smooth {lexeme : Lexeme Token} (smooth : isSmooth lexeme = true) :
    Steps .outside lexeme .outside := by
  intro more
  cases lexeme with
  | opening bracket | closing bracket | dot | safeDot => cases smooth
  | keyword word =>
    obtain ⟨notDo, notDef⟩ := Bool.and_eq_true_iff.1 smooth
    simp only [Nest.inside, Nest.after, Spot.next, spotBehind, if_neg (of_decide_eq_true notDo),
      if_neg (of_decide_eq_true notDef)]
    rfl
  | _ => rfl

theorem steps_opening {bracket : Bracket} (h : bracket ≠ .curly) : Steps .outside (.opening bracket) .within := by
  intro more
  simp only [Nest.inside, Nest.after, Spot.next, spotBehind, if_neg h, Nat.add_zero]
  rfl

theorem steps_curly : Steps .outside (.opening .curly) ⟨1, .begun⟩ :=
  fun _ => rfl

theorem steps_closing (bracket : Bracket) : Steps .within (.closing bracket) .outside :=
  fun _ => rfl

theorem steps_do : Steps .outside (.keyword "do") ⟨0, .begun⟩ :=
  fun _ => rfl

theorem steps_def : Steps .outside (.keyword "def") ⟨0, .naming⟩ :=
  fun _ => rfl

theorem after_begun {depth : Nat} {lexeme : Lexeme Token} (h : lexeme.isOperator "|" = false) :
    Nest.after ⟨depth, .begun⟩ lexeme = Nest.after ⟨depth, .plain⟩ lexeme := by
  have same : Spot.next .begun lexeme = Spot.next .plain lexeme := by
    change (if lexeme.isOperator "|" = true then Spot.params else spotBehind lexeme) = spotBehind lexeme
    rw [h, if_neg Bool.false_ne_true]
  simp only [Nest.after, same]
  rfl

end Formulary.Grammar
