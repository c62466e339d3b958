import Formulary.Proofs.Grammar.Progress
import Formulary.Proofs.Token.Depth

/-!
How deep rules call one another. Between two tokens that are read they do so less than sixteen times, and so the rules
that are unrolled suffice for the tokens at hand: no text is nested too deep for them.
-/

namespace Formulary

namespace Grammar

variable {α : Type} {parse : Rules} {n : Nat}

section Constructs

variable (below : (fuelling n).Rules parse parse)
include below

/-! Statements and operators -/

theorem settles_statements (stop : Stop) (statement : Settles (Under (n + 1)) (parse .statement) (Under n)) :
    Settles (Under (n + 1)) (statements parse stop) (Under (n + 1)) := by
  refine (Settles.of_quiet skipSeparators).bind fun _ => (Settles.of_quiet (atStop stop)).bind fun _ =>
    .ite (fun _ => .of_quiet _) fun _ => (statement.bind fun first => .tail ?_).keep
  exact .after fun _ => .after fun _ => .ite (.after fun _ => (below.statements stop).last) (below.statements stop).last

theorem settles_statement (connective : Settles (Under (n + 1)) (parse .connective) (Under n)) :
    Settles (Under (n + 1)) (statement parse) (Under n) :=
  connective.bind fun _ => below.modifiers _

theorem settles_modifiers (node : Node) : Settles (Under (n + 1)) (modifiers parse node) (Under (n + 1)) := by
  refine .look fun token _ => ?_
  dsimp only
  split
  case h_6 => exact (Settles.of_quiet _).away
  all_goals
    rename_i word
    refine (Settles.skipping (ne_end_of_view rfl word) ?_).keep
    exact (below.on .connective trivial).bind fun _ => below.modifiers _

theorem settles_connective (negation : Settles (Under (n + 1)) (parse .negation) (Under n)) :
    Settles (Under (n + 1)) (connective parse) (Under n) :=
  negation.bind fun _ => below.connectiveRest _

theorem settles_connectiveRest (left : Node) :
    Settles (Under (n + 1)) (connectiveRest parse left) (Under (n + 1)) := by
  refine .look fun token _ => ?_
  cases word : token.lexeme.keyword? with
  | none => exact (Settles.of_quiet _).away
  | some found =>
    refine .ite (fun _ => (Settles.skipping (ne_end_of_view rfl word) ?_).keep) fun _ =>
      (Settles.of_quiet _).away
    exact .after fun _ => (below.on .negation trivial).bind fun _ => below.connectiveRest _

theorem settles_negation (expression : Settles (Under (n + 1)) (parse .expression) (Under n)) :
    Settles (Under (n + 1)) (negation parse) (Under n) := by
  refine .look fun token _ => .ite (fun word => ?_) fun _ => expression.away
  exact .skipping (ne_end_of_test rfl word) (below.on .negation trivial).last

theorem settles_choice (binary : Settles (Under (n + 1)) (parse (.binary 0)) (Under n)) :
    Settles (Under (n + 1)) (choice parse) (Under n) :=
  .led (Lifting.lifted_choice below) (.led (Lifting.lifted_range below) binary)

theorem settles_binaryRest (least : Nat) (left : Node) :
    Settles (Under (n + 1)) (binaryRest parse least left) (Under (n + 1)) := by
  refine .look fun token _ => ?_
  cases sign : token.lexeme.operator? with
  | none => exact (Settles.of_quiet _).away
  | some op =>
    dsimp only
    cases precedence? op with
    | none => exact (Settles.of_quiet _).away
    | some precedence =>
      refine .ite (fun _ => (Settles.of_quiet _).away) fun _ =>
        (Settles.skipping (ne_end_of_view rfl sign) ?_).keep
      exact .after fun _ => (below.binary _).bind fun _ => below.binaryRest _ _

theorem settles_unary (operand : Settles (Under (n + 1)) (parse .operand) (Under n)) :
    Settles (Under (n + 1)) (unary parse) (Under n) := by
  refine .look fun token _ => ?_
  cases sign : token.lexeme.operator? with
  | none => exact operand.away
  | some op =>
    have inner : token.lexeme ≠ .endOfText := ne_end_of_view rfl sign
    refine .ite (fun _ => .skipping inner (below.on .unary trivial).last) fun _ => ?_
    refine .ite (fun _ => .skipping inner (.after fun _ => ?_)) fun _ => operand.away
    exact .ite (below.on .operand trivial).last (below.on .unary trivial).last

/-! Calls -/

theorem settles_argument (named : Bool) (expression : Settles (Under (n + 1)) (parse .expression) (Under n)) :
    Settles (Under (n + 1)) (argument parse named) (Under n) := by
  refine .look fun token _ => ?_
  have plain : Settles (Facing token (n + 1))
      (do let value ← parse .expression
          if ← check Lexeme.isArrow then
            discard advance
            skipNewlines
            return Sum.inr (value, ← parse .expression)
          else if named then complain .positionalAfterPairs
          else return Sum.inl value) (Under n) :=
    (expression.bind fun _ => .tail <| .after fun _ =>
      .ite (.after fun _ => .after fun _ => (below.on .expression trivial).last) (.quiet _)).away
  cases found : token.lexeme with
  | label name =>
    exact .skipping (by simp [found]) (.after fun _ => (below.on .expression trivial).last)
  | operator spelling =>
    have inner : token.lexeme ≠ .endOfText := by simp [found]
    split
    · contradiction
    · exact .skipping inner (below.on .expression trivial).last
    · exact .skipping inner (below.on .expression trivial).last
    · exact .skipping inner (below.on .expression trivial).last
    · exact plain
  | _ => exact plain

theorem settles_trailers (base : Node) : Settles (Under (n + 1)) (trailers parse base) (Under (n + 1)) := by
  refine .look fun token _ => ?_
  refine .ite (fun dot => (Settles.skipping (ne_end_of_test rfl dot) ?dot).keep) fun _ => ?_
  · refine .after fun _ => .after fun name => ?_
    cases methodName? name.lexeme with
    | none => exact .quiet _
    | some word => exact (Lifting.lifted_callRest below word (some base) base.pos).bind fun _ => below.trailers _
  refine .ite (fun colons => (Settles.skipping (ne_end_of_test rfl colons) ?_).keep) fun _ => ?_
  · exact (Lifting.lifted_colonTrailer below base).bind fun _ => below.trailers _
  refine .ite (fun bracket => ?_) fun _ => (Settles.of_quiet _).away
  refine (Settles.skipping (ne_end_of_test rfl (Bool.and_eq_true_iff.1 bracket).1) ?_).keep
  exact (Lifting.lifted_delimitedArguments below .square).bind fun _ => below.trailers _

theorem settles_blockNames : Settles (Under (n + 1)) (blockNames parse) (Under (n + 1)) := by
  refine (Settles.of_quiet (check _)).bind fun _ => .ite (fun _ => .of_quiet _) fun _ => .read fun token => ?_
  have more : Settles (Under n) (parse .blockNames) (Under n) := .tail (below.on .blockNames trivial)
  cases found : token.lexeme with
  | identifier name | label name =>
    exact .past (Settles.tail (below.on .blockNames trivial).last).keep (by simp [found])
  | operator op =>
    refine .past (Settles.tail (.after fun next => ?_)).keep (by simp [found])
    cases next.lexeme with
    | identifier name => exact .ite (.after fun _ => (below.on .blockNames trivial).last) (.quiet _)
    | _ => exact .quiet _
  | comma => exact .past more.keep (by simp [found])
  | opening bracket | closing bracket =>
    cases bracket with
    | round => exact .past more.keep (by simp [found])
    | _ => exact .past_end (.of_quiet _)
  | _ => exact .past_end (.of_quiet _)

theorem settles_exceptions (choice : Settles (Under (n + 1)) (parse .choice) (Under n)) :
    Settles (Under (n + 1)) (exceptions parse) (Under (n + 1)) := by
  refine (Settles.of_quiet (check _)).bind fun _ => .ite (fun _ => .of_quiet _) fun _ => ?_
  refine (choice.bind fun first => .tail (.after fun _ => ?_)).keep
  exact .ite (.after fun _ => (below.on .exceptions trivial).last) (.quiet _)

theorem settles_rescues : Settles (Under (n + 1)) (rescues parse) (Under (n + 1)) := by
  refine .test rfl (.ite (fun _ => ?_) fun no => absurd rfl no) (.ite nofun fun _ => .of_quiet _)
  exact ((Settles.headed (Lifting.lifted_rescueClause below)).bind fun _ => .tail (below.on .rescues trivial).last).keep

/-! Literals -/

theorem settles_adjacent : Settles (Under (n + 1)) (adjacent parse) (Under (n + 1)) := by
  refine .look fun token encloses => ?_
  cases found : token.lexeme with
  | string segments =>
    have held : (fuelling n).Held segments := (fuelling n).held_of_good encloses (by rw [found]; rfl)
    refine .ite (fun _ => (Settles.skipping (by simp [found]) ?_).keep) fun _ =>
      (Settles.of_quiet _).away
    exact (Lifting.lifted_pieces below held).bind fun _ => (below.on .adjacent trivial).last
  | _ => exact (Settles.of_quiet _).away

omit below in
theorem settles_hashKey (expression : Settles (Under (n + 1)) (parse .expression) (Under n)) :
    Settles (Under (n + 1)) (hashKey parse) (Under n) := by
  refine .look fun token _ => ?_
  cases found : token.lexeme with
  | label name => exact .skipping (by simp [found]) (.quiet _)
  | _ => exact (expression.bind fun _ => .of_quiet _).away

theorem settles_pairs (expression : Settles (Under (n + 1)) (parse .expression) (Under n)) :
    Settles (Under (n + 1)) (pairs parse) (Under (n + 1)) := by
  refine (Settles.of_quiet (check _)).bind fun _ => .ite (fun _ => .of_quiet _) fun _ => ?_
  refine ((settles_hashKey expression).bind fun _ => .tail ((below.on .expression trivial).bind fun _ => ?_)).keep
  exact .after fun _ => .after fun _ => .ite (.after fun _ => .after fun _ => (below.on .pairs trivial).last) (.quiet _)

/-! Keywords -/

theorem settles_whens : Settles (Under (n + 1)) (whens parse) (Under (n + 1)) := by
  refine .look fun token _ => .ite (fun word => ?_) fun _ => (Settles.of_quiet _).away
  refine (Settles.skipping (ne_end_of_test rfl word) ?_).keep
  refine (Lifting.lifted_argumentList below none).bind fun _ => .after fun _ => ?_
  exact (below.statements _).bind fun _ => (below.on .whens trivial).last

theorem settles_targets : Settles (Under (n + 1)) (targets parse) (Under (n + 1)) :=
  ((Settles.identifier _).bind fun _ => .tail <| .after fun _ =>
    .ite (.after fun _ => (below.on .targets trivial).last) (.quiet _)).keep

theorem settles_constantNames : Settles (Under (n + 1)) (constantNames parse) (Under (n + 1)) :=
  ((Settles.constant _).bind fun _ => .tail <| .after fun _ =>
    .ite (.after fun _ => (below.on .constantNames trivial).last) (.quiet _)).keep

theorem settles_params (parenthesized : Bool) :
    Settles (Under (n + 1)) (params parse parenthesized) (Under (n + 1)) := by
  refine (Settles.of_quiet (check _)).bind fun _ => .ite (fun _ => .of_quiet _) fun _ => .read fun token => ?_
  have more (name : String) : (fuelling n).Related (do return name :: (← parse (.params parenthesized)))
      (do return name :: (← parse (.params parenthesized))) :=
    (below.on (.params parenthesized) trivial).last
  cases found : token.lexeme with
  | identifier name =>
    refine .past (Settles.tail (.after fun _ => .after fun _ => ?_)).keep (by simp [found])
    exact .ite (.after fun _ => (below.on .choice trivial).map.bind fun _ => more name) (more name)
  | label name =>
    refine .past (Settles.tail (.after fun _ => .after fun _ => .ite ?_ (more name))).keep (by simp [found])
    exact (below.on .choice trivial).map.bind fun _ => more name
  | operator op =>
    refine .past (Settles.tail (.ite (.after fun next => ?_) (.quiet _))).keep (by simp [found])
    cases next.lexeme with
    | identifier name => exact .after fun _ => .after fun _ => more name
    | _ => exact below.on (.params parenthesized) trivial
  | comma => exact .past (Settles.tail (below.on (.params parenthesized) trivial)).keep (by simp [found])
  | _ => exact .past_end (.of_quiet _)

/-- Without a token to read, a conditional begins like its test. -/
theorem settles_branch (connective : Settles (Under (n + 1)) (parse .connective) (Under n)) :
    Settles (Under (n + 1)) (branch parse) (Under (n + 1)) := by
  refine (Settles.of_quiet advance).bind fun token => (connective.bind fun cond => .tail (.after fun _ => ?_)).keep
  exact (below.statements _).bind fun statements => .after fun _ =>
    .ite (below.on .branch trivial).last (Lifting.lifted_elseClause below).last

theorem settles_keyword (token : Token) (word : String)
    (branch : Settles (Brink (n + 1)) (parse .branch) (Under n)) :
    Settles (Brink (n + 1)) (keyword parse token word) (Under n) := by
  unfold keyword
  split
  case h_6 | h_7 => exact branch
  case h_8 | h_9 => exact .headed (Lifting.lifted_loop below _)
  case h_10 => exact .headed (Lifting.lifted_forLoop below)
  case h_11 => exact .headed (Lifting.lifted_caseOf below)
  case h_12 => exact .headed (Lifting.lifted_beginBlock below)
  case h_13 => exact .headed (Lifting.lifted_methodDef below)
  case h_14 => exact .headed (Lifting.lifted_classDef below)
  case h_15 => exact .headed (Lifting.lifted_moduleDef below)
  case h_16 | h_17 | h_18 => exact .headed (Lifting.lifted_jump below _)
  case h_19 | h_20 => exact .headed (Lifting.lifted_keywordCall below _)
  case h_21 => exact Settles.skip.bind fun _ => .tail (below.on .expression trivial).last
  case h_22 => exact .complains _
  all_goals exact Settles.skip.bind fun _ => .of_quiet _

theorem settles_primary (branch : Settles (Brink (n + 1)) (parse .branch) (Under n)) :
    Settles (Under (n + 1)) (primary parse) (Under n) := by
  refine .look fun token encloses => ?_
  dsimp only
  have held {segments : List (Segment Token)} (same : token.lexeme.segments = segments) : (fuelling n).Held segments :=
    (fuelling n).held_of_good encloses same
  have number {γ : Type} (value : Except Text.NumberFault γ) :
      (fuelling n).Related (fromNumber value) (fromNumber value) :=
    Settles.number value
  cases found : token.lexeme with
  | integer digits => exact .skipping (by simp [found]) (number _).last
  | float digits => exact .skipping (by simp [found]) (number _).last
  | string segments =>
    refine .skipping (by simp [found]) ?_
    exact Lifting.lifted_stringLiteral below token.pos (held (by rw [found]; rfl))
  | shell segments =>
    refine .skipping (by simp [found]) ?_
    exact (Lifting.lifted_pieces below (held (by rw [found]; rfl))).last
  | regexp _ _ | symbol _ | words _ | symbols _ | instanceVar _ | globalVar _ | doubleColon =>
    exact .skipping (by simp [found]) (.quiet _)
  | constant name =>
    refine .skipping (by simp [found]) (.after fun _ => ?_)
    exact .ite (Lifting.lifted_callRest below name none token.pos) (.quiet _)
  | identifier name =>
    refine .skipping (by simp [found]) (.after fun _ => .after fun _ => ?_)
    exact .ite (.quiet _) (Lifting.lifted_callRest below name none token.pos)
  | keyword word => exact .at_brink (settles_keyword below token word branch) (by simp [found])
  | opening bracket =>
    have inner : token.lexeme ≠ .endOfText := by simp [found]
    cases bracket with
    | round => exact .skipping inner (.enclosed (below.statements _).last)
    | square =>
      exact .skipping inner (Lifting.lifted_delimitedArguments below .square).last
    | curly => exact .at_brink (.headed (Lifting.lifted_hash below)) inner
  | operator spelling =>
    split
    all_goals first | contradiction | exact .complains _
  | _ => exact .complains _

end Constructs

/-! The rules -/

/-- How many rules may call one another, up to this one, before a token is read. -/
def Rule.rank : {α : Type} → Rule α → Nat
  | _, .operand => 1
  | _, .unary => 2
  | _, .binary _ => 3
  | _, .choice => 4
  | _, .expression | _, .exceptions => 5
  | _, .negation | _, .arguments _ _ | _, .pairs => 6
  | _, .connective => 7
  | _, .statement | _, .branch => 8
  | _, .statements _ => 9
  | _, .code _ _ => 10
  | _, _ => 0

/-- A rule that reads a token wherever it reads anything. -/
inductive Rule.Reads : {α : Type} → Rule α → Prop
  | statement : Reads .statement
  | connective : Reads .connective
  | negation : Reads .negation
  | expression : Reads .expression
  | choice : Reads .choice
  | binary (least : Nat) : Reads (.binary least)
  | unary : Reads .unary
  | operand : Reads .operand
  | arguments (closer : Option Bracket) (named : Bool) : Reads (.arguments closer named)

theorem Rule.rank_lt {α : Type} (rule : Rule α) : rule.rank < 16 := by
  cases rule <;> simp [rank]

/-- Rules that are unrolled so often that they make do with it where less than a sixteenth of that is left over. -/
structure Fuelled (fuel : Nat) (parse : Rules) : Prop where
  reads {α : Type} (rule : Rule α) (n : Nat) : rule.Reads → 16 * n + rule.rank < fuel →
    Settles (Under (n + 1)) (parse rule) (Under n)
  keeps {α : Type} (rule : Rule α) (n : Nat) : rule.Holds (Light (n + 1)) → 16 * n + rule.rank < fuel →
    Settles (Under (n + 1)) (parse rule) (Under (n + 1))
  branch (n : Nat) : 16 * n < fuel → Settles (Brink (n + 1)) (parse .branch) (Under n)

theorem Fuelled.below {fuel : Nat} (h : Fuelled fuel parse) (enough : 16 * n ≤ fuel) :
    (fuelling n).Rules parse parse := by
  constructor
  intro α rule holds
  cases n with
  | zero => exact Settles.of_zero
  | succ n =>
    have := rule.rank_lt
    exact h.keeps rule n holds (by omega)

theorem fuelled_step {fuel : Nat} (h : Fuelled fuel parse) : Fuelled (fuel + 1) (step parse) := by
  have lower {α : Type} {k n : Nat} (rule : Rule α) (reads : rule.Reads) (enough : 16 * n + k < fuel + 1)
      (lt : rule.rank < k) : Settles (Under (n + 1)) (parse rule) (Under n) :=
    h.reads rule n reads (by omega)
  have reads {α : Type} (rule : Rule α) (n : Nat) (reads : rule.Reads) (enough : 16 * n + rule.rank < fuel + 1) :
      Settles (Under (n + 1)) (step parse rule) (Under n) := by
    have below : (fuelling n).Rules parse parse := h.below (by omega)
    cases reads with
    | statement => exact settles_statement below (lower .connective .connective enough (by simp [Rule.rank]))
    | connective => exact settles_connective below (lower .negation .negation enough (by simp [Rule.rank]))
    | negation => exact settles_negation below (lower .expression .expression enough (by simp [Rule.rank]))
    | expression => exact .led (Lifting.lifted_expression below) (lower .choice .choice enough (by simp [Rule.rank]))
    | choice => exact settles_choice below (lower (.binary 0) (.binary 0) enough (by simp [Rule.rank]))
    | binary least => exact (lower .unary .unary enough (by simp [Rule.rank])).bind fun _ => below.binaryRest _ _
    | unary => exact settles_unary below (lower .operand .operand enough (by simp [Rule.rank]))
    | operand =>
      exact (settles_primary below (h.branch n (by rw [Rule.rank] at enough; omega))).bind fun _ => below.trailers _
    | arguments closer named =>
      exact .led (Lifting.lifted_arguments below closer named)
        (settles_argument below named (lower .expression .expression enough (by simp [Rule.rank])))
  refine ⟨reads, fun {α} rule n holds enough => ?_, fun n enough => ?_⟩
  · have below : (fuelling n).Rules parse parse := h.below (by omega)
    cases rule with
    | statements stop => exact settles_statements below stop (lower .statement .statement enough (by simp [Rule.rank]))
    | statement => exact (reads _ n .statement enough).keep
    | modifiers node => exact settles_modifiers below node
    | connective => exact (reads _ n .connective enough).keep
    | connectiveRest left => exact settles_connectiveRest below left
    | negation => exact (reads _ n .negation enough).keep
    | expression => exact (reads _ n .expression enough).keep
    | choice => exact (reads _ n .choice enough).keep
    | binary least => exact (reads _ n (.binary least) enough).keep
    | binaryRest least left => exact settles_binaryRest below least left
    | unary => exact (reads _ n .unary enough).keep
    | operand => exact (reads _ n .operand enough).keep
    | trailers base => exact settles_trailers below base
    | arguments closer named => exact (reads _ n (.arguments closer named) enough).keep
    | adjacent => exact settles_adjacent below
    | code tokens pos =>
      refine .embedded pos holds (h.keeps (.statements {}) n trivial ?_)
      simp only [Rule.rank] at enough ⊢
      omega
    | pairs => exact settles_pairs below (lower .expression .expression enough (by simp [Rule.rank]))
    | blockNames => exact settles_blockNames below
    | params parenthesized => exact settles_params below parenthesized
    | branch => exact settles_branch below (lower .connective .connective enough (by simp [Rule.rank]))
    | whens => exact settles_whens below
    | rescues => exact settles_rescues below
    | exceptions => exact settles_exceptions below (lower .choice .choice enough (by simp [Rule.rank]))
    | targets => exact settles_targets below
    | constantNames => exact settles_constantNames below
  · exact .headed (Lifting.lifted_branch (h.below (by omega)))

theorem fuelled_rule (fuel : Nat) : Fuelled fuel (rule fuel) := by
  induction fuel with
  | zero => exact ⟨fun _ _ _ => nofun, fun _ _ _ => nofun, fun _ => nofun⟩
  | succ fuel ih => exact fuelled_step ih

/-- The rules that are unrolled suffice for the tokens at hand. -/
theorem ofTokens_not_deep {tokens : List Token} {fault : ReadError} (capped : Capped tokens)
    (h : ofTokens tokens = .error fault) : ¬Deep fault := by
  have split := capped.split ⟨.endOfText, .origin, true⟩
  have start : Under (tokensWeight tokens + 1) (start tokens) := by
    refine ⟨by rw [Grammar.start, split]; exact capped, ?_⟩
    have whole := congrArg tokensWeight split
    rw [tokensWeight_append] at whole
    exact Nat.lt_succ_of_le (whole ▸ Nat.le_add_right _ _)
  have settles : Settles (Under (tokensWeight tokens + 1)) (program (rule (enoughFuel tokens)))
      (Under (tokensWeight tokens + 1)) := by
    refine ((fuelled_rule _).keeps (.statements {}) _ trivial ?_).bind fun _ => .of_quiet _
    rw [enoughFuel, Rule.rank]
    omega
  cases run : (program (rule (enoughFuel tokens))).run (Grammar.start tokens) with
  | ok found => simp [ofTokens, run, Except.map] at h
  | error error =>
    rw [ofTokens, run] at h
    obtain rfl := Except.error.inj h
    exact settles.fair start run

end Grammar

/-- No text is nested too deep to be read. -/
theorem parseRecipe_not_deep {text : List Char} {fault : ReadError} (h : parseRecipe text = .error fault) :
    ¬Grammar.Deep fault := by
  unfold parseRecipe at h
  split at h
  · rename_i tokens scanned
    exact Grammar.ofTokens_not_deep (scanned_tokenize scanned).capped h
  · rename_i error scanned
    obtain rfl := Except.error.inj h
    rintro ⟨deep⟩
    exact shallow_tokenize text .origin _ scanned deep

end Formulary
