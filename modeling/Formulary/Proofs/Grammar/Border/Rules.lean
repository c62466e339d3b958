import Formulary.Proofs.Grammar.Border.Barren
import Formulary.Proofs.Grammar.Border.Sequence

/-! How far each rule carries over a border, and what stands between a block's delimiters. -/

namespace Formulary.Grammar

variable {α β : Type}

/-! Parsers up to a closing token -/

theorem suffix_antisymm {tokens rest : List Token} (h : tokens <:+ rest) (h' : rest <:+ tokens) : tokens = rest :=
  h.eq_of_length (Nat.le_antisymm h.length_le h'.length_le)

/-- A parser that reads a token wherever there is one, as those up to a closing token do. -/
structure Shuts (border : Border) (tied : Bool) (start finish : Nest) (p : Parser α) : Prop extends
    Carries border tied .firm start finish p where
  reading : Reading p

namespace Shuts

variable {border : Border} {tied : Bool} {start mid finish : Nest} {reach : Reach} {p : Parser α} {next : α → Parser β}

theorem bind (h : Carries border tied reach start mid p) (tail : ∀ value, Shuts border tied mid finish (next value)) :
    Shuts border tied start finish (p >>= next) where
  toCarries := h.bind_firm fun value => (tail value).toCarries
  reading := by
    intro state after found some run same
    obtain ⟨value, middle, first, second⟩ := run_bind_eq_ok_iff.1 run
    have fewer := ((tail value).behind second).fewer
    rw [same] at fewer
    have kept : middle.ahead = state.ahead := suffix_antisymm (h.behind first).fewer fewer
    exact (tail value).reading (kept ▸ some) second (same.trans kept.symm)

theorem first (h : Shuts border tied start mid p) (tail : ∀ value, Carries border tied .whole mid finish (next value)) :
    Shuts border tied start finish (p >>= next) where
  toCarries := h.toCarries.firm_bind tail
  reading := by
    intro state after found some run same
    obtain ⟨value, middle, first, second⟩ := run_bind_eq_ok_iff.1 run
    have fewer := ((tail value).behind second).fewer
    rw [same] at fewer
    exact h.reading some first (suffix_antisymm (h.behind first).fewer fewer)

theorem consume {test : Lexeme Token → Bool}
    (h : ∀ lexeme, test lexeme = true → Steps start lexeme finish ∧ Reach.whole.strands lexeme = false)
    (ended : test .endOfText = false) (complaint : Complaint) :
    Shuts border tied start finish (consume test complaint) where
  toCarries := .consume h ended complaint
  reading := by
    intro state after value some run
    rw [Grammar.consume, run_bind_of_ok (run_check state test)] at run
    cases found : test state.next.lexeme with
    | false =>
      rw [found] at run
      cases run
    | true =>
      rw [found] at run
      obtain ⟨-, rfl⟩ := Prod.mk.inj (Except.ok.inj run)
      intro same
      obtain ⟨token, tokens, ahead⟩ := List.exists_cons_of_ne_nil some
      have same : state.ahead.tail = state.ahead := same
      rw [ahead] at same
      exact List.cons_ne_self _ _ same.symm

/-- A closing bracket, and the value of what it closes. -/
theorem closing (bracket : Bracket) (complaint : Complaint) (value : α) : Shuts border tied .within .outside
    (do Grammar.consume (·.isClosing bracket) complaint; return value) := by
  refine first (consume (fun lexeme found => ?_) rfl complaint) fun _ => .pure value
  rw [eq_of_isClosing found]
  exact ⟨steps_closing bracket, rfl⟩

theorem ending (value : α) : Shuts border tied .outside .outside (do consumeWord "end"; return value) := by
  refine first (consume (fun lexeme found => ?_) rfl _) fun _ => .pure value
  rw [eq_of_isKeyword found]
  exact ⟨steps_of_smooth rfl, rfl⟩

/-- Where a block may begin, but no bar comes. -/
theorem begun {depth : Nat} (h : Shuts border tied ⟨depth, .plain⟩ finish p)
    (bars : ∀ {state : State}, state.next.lexeme = .operator "|" → ∀ result, p.run state ≠ .ok result) :
    Carries border tied .firm ⟨depth, .begun⟩ finish p where
  at_token token := by
    cases bar : token.lexeme.isOperator "|" with
    | false => exact (h.at_token token).begun bar h.reading
    | true =>
      refine .of_fails fun state here => bars ?_
      rw [here]
      exact eq_of_isOperator bar
  fits := h.fits

end Shuts

/-! Tokens without a bearing on the others -/

/-- A token behind which nothing must follow, neither a bracket nor one that changes what the next one means. -/
def isInert (lexeme : Lexeme Token) : Bool :=
  isSmooth lexeme && !Reach.whole.strands lexeme

section Inert

variable {border : Border} {tied : Bool} {token : Token} {finish : Nest} {reach : Reach} {word : String}

theorem steps_of_inert {lexeme : Lexeme Token} (inert : isInert lexeme = true) :
    Steps .outside lexeme .outside ∧ ∀ reach : Reach, reach.strands lexeme = false := by
  obtain ⟨smooth, free⟩ := Bool.and_eq_true_iff.1 inert
  refine ⟨steps_of_smooth smooth, fun reach => Bool.eq_false_iff.2 fun strands => ?_⟩
  rw [@Reach.strands_mono .whole reach _ (fun _ => rfl) strands] at free
  contradiction

theorem CarriesAt.inert_skip {next : Unit → Parser α} (inert : isInert token.lexeme = true)
    (tail : Carries border tied reach .outside finish (next ())) :
    CarriesAt border tied token .outside finish reach (discard Grammar.advance >>= next) :=
  .skip (steps_of_inert inert).1 tail fun strands =>
    absurd (((steps_of_inert inert).2 reach).symm.trans strands) Bool.false_ne_true

theorem CarriesAt.inert_advance {next : Token → Parser α} (inert : isInert token.lexeme = true)
    (tail : Carries border tied reach .outside finish (next token)) :
    CarriesAt border tied token .outside finish reach (Grammar.advance >>= next) :=
  .advance (steps_of_inert inert).1 tail fun strands =>
    absurd (((steps_of_inert inert).2 reach).symm.trans strands) Bool.false_ne_true

/-- A bracket that no block and no hash begins with. -/
theorem CarriesAt.skip_opening {next : Unit → Parser α} {bracket : Bracket} (found : token.lexeme = .opening bracket)
    (plain : bracket ≠ .curly) (tail : Carries border tied reach .within finish (next ())) :
    CarriesAt border tied token .outside finish reach (discard Grammar.advance >>= next) := by
  refine .skip ?_ tail fun binds => ?_
  · rw [found]
    exact steps_opening plain
  · rw [found] at binds
    cases binds

/-- Two colons, behind which a name must follow. -/
theorem CarriesAt.skip_colons {next : Unit → Parser α} (found : token.lexeme.isDoubleColon = true)
    (tail : Carries border tied .firm .outside finish (next ())) :
    CarriesAt border tied token .outside finish .firm (discard Grammar.advance >>= next) := by
  refine .skip ?_ tail fun _ => rfl
  cases same : token.lexeme with
  | doubleColon => exact steps_of_smooth rfl
  | _ =>
    rw [same] at found
    cases found

theorem eq_of_operator? {lexeme : Lexeme Token} {op : String} (sign : lexeme.operator? = some op) :
    lexeme = .operator op :=
  eq_of_isOperator (decide_eq_true sign)

theorem inert_of_keyword? (found : token.lexeme.keyword? = some word) (plain : isInert (.keyword word) = true) :
    isInert token.lexeme = true := by
  cases same : token.lexeme with
  | keyword name =>
    rw [same] at found
    rwa [Option.some.inj found]
  | _ =>
    rw [same] at found
    cases found

theorem inert_of_isKeyword (found : token.lexeme.isKeyword word = true) (plain : isInert (.keyword word) = true) :
    isInert token.lexeme = true := by
  rwa [eq_of_isKeyword found]

end Inert

/-- A token is inert if it passes a test that fails for all others. -/
theorem inert_of_test {lexeme : Lexeme Token} {test : Lexeme Token → Bool} (h : test lexeme = true)
    (newline : test .newline = false) (semicolon : test .semicolon = false)
    (opening : ∀ bracket, test (.opening bracket) = false) (closing : ∀ bracket, test (.closing bracket) = false)
    (dot : test .dot = false) (safeDot : test .safeDot = false) (colons : test .doubleColon = false)
    (word : ∀ word, test (.keyword word) = false) (sign : ∀ sign, test (.operator sign) = false) :
    isInert lexeme = true := by
  cases lexeme with
  | newline => rw [newline] at h; contradiction
  | semicolon => rw [semicolon] at h; contradiction
  | opening bracket => rw [opening] at h; contradiction
  | closing bracket => rw [closing] at h; contradiction
  | dot => rw [dot] at h; contradiction
  | safeDot => rw [safeDot] at h; contradiction
  | doubleColon => rw [colons] at h; contradiction
  | keyword name => rw [word] at h; contradiction
  | operator spelling => rw [sign] at h; contradiction
  | _ => rfl

theorem Rim.barren {lexeme : Lexeme Token} (rim : Rim lexeme) : Barren lexeme := by
  cases rim with
  | close => exact .close
  | ended => exact .ended

theorem Refuses.eager {border : Border} {p : Parser α} (h : Refuses p) : Eager border p :=
  .of_fails fun _ _ rim here => h (here ▸ rim.barren)

theorem inert_of_isComma {lexeme : Lexeme Token} (h : lexeme.isComma = true) : isInert lexeme = true :=
  inert_of_test h rfl rfl (fun _ => rfl) (fun _ => rfl) rfl rfl rfl (fun _ => rfl) fun _ => rfl

theorem inert_of_isArrow {lexeme : Lexeme Token} (h : lexeme.isArrow = true) : isInert lexeme = true :=
  inert_of_test h rfl rfl (fun _ => rfl) (fun _ => rfl) rfl rfl rfl (fun _ => rfl) fun _ => rfl

theorem isComma_of_closesStatement {lexeme : Lexeme Token} (h : closesStatement lexeme = true) :
    lexeme.isComma = false :=
  test_of_closesStatement h rfl rfl rfl (fun _ => rfl) fun _ _ => rfl

/-! Rules -/

/-- The place from which a rule reads on. -/
def Rule.nest : Rule α → Nest
  | .params true => .within
  | .blockNames => ⟨0, .params⟩
  | _ => .outside

/-- How far a rule carries. -/
def Rule.extent : Rule α → Reach
  | .statement | .connective | .negation | .expression | .choice | .binary _ | .unary | .operand => .firm
  | .arguments none _ | .params _ | .constantNames => .firm
  | .modifiers _ | .connectiveRest _ | .binaryRest .. | .trailers _ | .adjacent | .code .. => .whole
  | _ => .inner

/-- Whether a rule may begin anywhere. The parameters of a method stand only where both runs wait alike. -/
def Rule.isFree (tied : Bool) : Rule α → Bool
  | .branch => false
  | .params _ => tied
  | _ => true

/-- The words that begin a conditional block. -/
def branchWords : List String :=
  ["if", "unless", "elsif"]

/-- Rules that carry over the border. -/
structure CarryingRules (border : Border) (parse : Rules) : Prop where
  carries {α : Type} (r : Rule α) (tied : Bool) (free : r.isFree tied = true) :
    Carries border tied r.extent r.nest .outside (parse r)
  branch {token : Token} {word : String} (found : token.lexeme = .keyword word) (opens : word ∈ branchWords)
    (tied : Bool) : CarriesAt border tied token .outside .outside .firm (parse .branch)
  refuses : RefusingRules parse
  bars {state : State} (stop : Stop) (bar : state.next.lexeme = .operator "|") (result : List Node × State) :
    (parse (.statements stop)).run state ≠ .ok result

namespace CarryingRules

variable {border : Border} {tied : Bool} {parse : Rules} (rules : CarryingRules border parse)
include rules

theorem statements (stop : Stop) : Carries border tied .inner .outside .outside (parse (.statements stop)) :=
  rules.carries (.statements stop) tied rfl

theorem modifiers (node : Node) : Carries border tied .whole .outside .outside (parse (.modifiers node)) :=
  rules.carries (.modifiers node) tied rfl

theorem connective : Carries border tied .firm .outside .outside (parse .connective) :=
  rules.carries .connective tied rfl

theorem connectiveRest (left : Node) : Carries border tied .whole .outside .outside (parse (.connectiveRest left)) :=
  rules.carries (.connectiveRest left) tied rfl

theorem negation : Carries border tied .firm .outside .outside (parse .negation) :=
  rules.carries .negation tied rfl

theorem expression : Carries border tied .firm .outside .outside (parse .expression) :=
  rules.carries .expression tied rfl

theorem choice : Carries border tied .firm .outside .outside (parse .choice) :=
  rules.carries .choice tied rfl

theorem binary (least : Nat) : Carries border tied .firm .outside .outside (parse (.binary least)) :=
  rules.carries (.binary least) tied rfl

theorem binaryRest (least : Nat) (left : Node) :
    Carries border tied .whole .outside .outside (parse (.binaryRest least left)) :=
  rules.carries (.binaryRest least left) tied rfl

theorem unary : Carries border tied .firm .outside .outside (parse .unary) :=
  rules.carries .unary tied rfl

theorem operand : Carries border tied .firm .outside .outside (parse .operand) :=
  rules.carries .operand tied rfl

theorem trailers (base : Node) : Carries border tied .whole .outside .outside (parse (.trailers base)) :=
  rules.carries (.trailers base) tied rfl

theorem bareArguments (named : Bool) : Carries border tied .firm .outside .outside (parse (.arguments none named)) :=
  rules.carries (.arguments none named) tied rfl

theorem arguments (closer : Option Bracket) (named : Bool) :
    Carries border tied .inner .outside .outside (parse (.arguments closer named)) := by
  cases closer with
  | none => exact rules.bareArguments named |>.to_inner
  | some bracket => exact rules.carries (.arguments (some bracket) named) tied rfl

theorem params (parenthesized : Bool) : Carries border true .firm (Rule.params parenthesized).nest .outside
    (parse (.params parenthesized)) :=
  rules.carries (.params parenthesized) true rfl

end CarryingRules

end Formulary.Grammar
