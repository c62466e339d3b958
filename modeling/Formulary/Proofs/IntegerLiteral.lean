import Formulary.Directive.Arguments
import Formulary.Proofs.Grammar.BlockBinding
import Formulary.Proofs.Grammar.Continuation
import Formulary.Proofs.Text.Digits
import Formulary.Proofs.Token.Quotation

/-!
Integer literals, from the text to the directive. An integer is one token or, with a minus sign before it, two; its tree
is a single node with its value, and this is what a directive with the integer as its argument is given.
-/

namespace Formulary

/-! Tokens -/

namespace Spelling

theorem number_lettered {letter : Char} {text : List Char} (named : isBaseMark letter = true)
    (inner : ∀ c ∈ text, isNameChar c = true) :
    number ('0' :: letter :: text) = (.integer (withoutUnderscores ('0' :: letter :: text)), []) := by
  rw [number, if_pos named, List.takeWhile_eq_self_iff.2 inner, List.dropWhile_eq_nil_iff.2 inner]

theorem number_plain {text : List Char} (inner : ∀ c ∈ text, isDigitChar c = true)
    (second : ∀ mark ∈ text.tail.head?, isBaseMark mark = false) :
    number text = (.integer (withoutUnderscores text), []) := by
  have whole : decimalNumber text = (.integer (withoutUnderscores text), []) := by
    rw [decimalNumber, List.takeWhile_eq_self_iff.2 inner]
    simp [fractionPart, powerPart]
  unfold number
  split
  · rename_i mark rest
    rw [second mark rfl]
    exact whole
  · exact whole

end Spelling

namespace WritesNatural

variable {n : Nat} {digits : List Nat} {text : List Char}

theorem head (h : WritesNatural n text) :
    ∃ digit c more, digit < 10 ∧ c ∈ digitForms digit ∧ text = c :: more := by
  cases h with
  | decimal within _ written =>
    obtain ⟨digit, c, more, front, rfl, form⟩ := written.head
    exact ⟨digit, c, more, within digit (List.mem_of_head? front), form, rfl⟩
  | lettered => exact ⟨0, '0', _, by decide, by decide, rfl⟩
  | octal _ _ written =>
    obtain ⟨digit, c, more, front, rfl, form⟩ := written.head
    obtain rfl := Option.some.inj front
    exact ⟨0, c, more, by decide, form, rfl⟩

/-- Digits without a letter are one token. -/
theorem number_of_digits (within : ∀ digit ∈ digits, digit < 10) (written : WritesDigits digits text) :
    Spelling.number text = (.integer (Spelling.withoutUnderscores text), []) := by
  have unnamed : ∀ digit < 10, ∀ c ∈ digitForms digit, Spelling.isBaseMark c = false := forall_forms (by decide)
  apply Spelling.number_plain
  · refine written.forall_mem rfl fun digit mem c form => ?_
    rw [Spelling.isDigitChar, digitForms_decimal digit (within digit mem) c form, Bool.true_or]
  · intro mark mem
    refine written.forall_mem (p := fun c => Spelling.isBaseMark c = false) rfl ?_ mark ?_
    · exact fun digit mem c form => unnamed digit (within digit mem) c form
    · exact List.mem_of_mem_tail (List.mem_of_head? mem)

/-- A number is one token, which is read as its value. -/
theorem number (h : WritesNatural n text) :
    ∃ digits, Spelling.number text = (.integer digits, []) ∧ Text.integerLiteral digits = .ok n := by
  cases h with
  | @decimal digits _ within plain written =>
    refine ⟨_, number_of_digits within written, ?_⟩
    have ten : (if 1 < digits.length ∧ digits.head? = some 0 then 8 else 10) = 10 := by
      obtain rfl | nonzero := plain
      · rfl
      · exact if_neg fun both => nonzero both.2
    have value := Text.integerLiteral_plain within written.ne_nil
      (written.filter fun digit mem => (within digit mem).trans (by decide))
    simp only [ten] at value
    exact value within
  | @lettered letter base digits text named within written =>
    obtain ⟨small, -, solid, mark, -⟩ := Text.baseLetters_prefix _ named
    have below : ∀ digit ∈ digits, digit < 16 := fun digit mem => (within digit mem).trans_le small
    have inner : ∀ c ∈ text, Spelling.isNameChar c = true :=
      written.forall_mem rfl fun digit mem c form => (digitForms_plain digit (below digit mem) c form).2.1
    refine ⟨_, Spelling.number_lettered mark inner, ?_⟩
    have kept : ('0' :: letter :: text).filter (· ≠ '_') = '0' :: letter :: text.filter (· ≠ '_') := by
      rw [List.filter_cons_of_pos (by decide), List.filter_cons_of_pos (by simpa using solid)]
    rw [Spelling.withoutUnderscores, kept]
    exact Text.integerLiteral_lettered named within written.ne_nil (written.filter below)
  | @octal digits _ filled within written =>
    have below : ∀ digit ∈ 0 :: digits, digit < 8 := List.forall_mem_cons.2 ⟨by decide, within⟩
    have decimal : ∀ digit ∈ 0 :: digits, digit < 10 := fun digit mem => (below digit mem).trans (by decide)
    refine ⟨_, number_of_digits decimal written, ?_⟩
    have eight : (if 1 < (0 :: digits).length ∧ (0 :: digits).head? = some 0 then 8 else 10) = 8 :=
      if_pos ⟨Nat.succ_lt_succ (List.length_pos_iff.2 filled), rfl⟩
    have value := Text.integerLiteral_plain decimal written.ne_nil
      (written.filter fun digit mem => (below digit mem).trans (by decide))
    simp only [eight] at value
    have same : Nat.ofDigits 8 (0 :: digits).reverse = Nat.ofDigits 8 digits.reverse := by
      rw [List.reverse_cons, Nat.ofDigits_append, Nat.ofDigits_singleton, Nat.mul_zero, Nat.add_zero]
    rw [← same]
    exact value below

end WritesNatural

/-- The ways to write an integer: those of a natural number, with a minus sign directly before it if it is negative. -/
inductive WritesInteger : Int → List Char → Prop
  | natural {n : Nat} {text : List Char} : WritesNatural n text → WritesInteger n text
  | negative {n : Nat} {text : List Char} : WritesNatural n text → WritesInteger (-n) ('-' :: text)

/-- The tokens of an integer that begins at a place. -/
inductive NumberTokens (pos : Position) (spaced : Bool) : Int → List Token → Prop
  | natural {n : Nat} {digits : String} : Text.integerLiteral digits = .ok n →
      NumberTokens pos spaced n [⟨.integer digits, pos, spaced⟩]
  | negative {n : Nat} {digits : String} {pos' : Position} : Text.integerLiteral digits = .ok n →
      NumberTokens pos spaced (-n) [⟨.operator "-", pos, spaced⟩, ⟨.integer digits, pos', false⟩]

namespace Scan

open Body Result

variable (code : Reader) (state : State) {n : Nat} {value : Int} {text : List Char}

/-- A number up to the end of the text. -/
theorem scans_natural (written : WritesNatural n text) (front : state.cursor.rest = text) (idle : state.pending = []) :
    ∃ digits last, Text.integerLiteral digits = .ok n ∧ last.lexeme = .endOfText ∧
      Scans code state [⟨.integer digits, state.cursor.pos, state.spaced⟩, last] [] := by
  have begins : ∀ digit < 10, ∀ c ∈ digitForms digit, Text.isDigit c = true ∧ BeginsToken c := forall_forms (by decide)
  obtain ⟨digits, whole, read⟩ := written.number
  obtain ⟨digit, c, more, small, form, rfl⟩ := written.head
  obtain ⟨isDigit, begins⟩ := begins digit small c form
  have plain : plainToken code state c = .ok (.integer digits, []) := by
    rw [plainToken, if_pos isDigit, front, whole]
  have ends : Scans code (state.taken (.integer digits) []) _ [] := scans_end (rest_moveTo List.nil_suffix) idle
  exact ⟨digits, _, read, rfl, .of_plainToken front begins plain ends⟩

/-- A minus sign that a digit follows is a token of its own. -/
theorem sign_minus {digit : Nat} {c : Char} (small : digit < 10) (form : c ∈ digitForms digit) (more : List Char) :
    Spelling.sign ('-' :: c :: more) = some (.operator "-", c :: more) := by
  have other : ∀ digit < 10, ∀ c ∈ digitForms digit, c ≠ '=' ∧ c ≠ '>' := forall_forms (by decide)
  obtain ⟨equals, arrow⟩ := other digit small c form
  simp [Spelling.sign, Spelling.operators, Gap.startsWith, List.isPrefixOf, Ne.symm equals, Ne.symm arrow]
  rfl

/-- An integer up to the end of the text. -/
theorem scans_integer (written : WritesInteger value text) (front : state.cursor.rest = text)
    (idle : state.pending = []) : ∃ tokens last, NumberTokens state.cursor.pos state.spaced value tokens ∧
      last.lexeme = .endOfText ∧ Scans code state (tokens ++ [last]) [] := by
  cases written with
  | natural written =>
    obtain ⟨digits, last, read, final, scans⟩ := scans_natural code state written front idle
    exact ⟨_, last, .natural read, final, scans⟩
  | @negative n text written =>
    obtain ⟨digit, c, more, small, form, rfl⟩ := written.head
    have plain : plainToken code state '-' = .ok (.operator "-", c :: more) := by
      rw [plainToken, front, sign_minus small form]
      rfl
    have behind : (state.taken (.operator "-") (c :: more)).cursor.rest = c :: more :=
      rest_moveTo (front ▸ List.suffix_cons '-' (c :: more))
    obtain ⟨digits, last, read, final, scans⟩ := scans_natural code _ written behind idle
    exact ⟨_, last, .negative read, final, .of_plainToken front (by decide) plain scans⟩

end Scan

/-! Trees -/

namespace Grammar

open Filter (Eventually atTop)

variable {state : State} {value : Int} {tokens rest : List Token} {pos : Position} {spaced : Bool}

theorem operand_number {n : Nat} {digits : String} (pos : Position) (spaced : Bool)
    (read : Text.integerLiteral digits = .ok n)
    (ends : goesWithOperand (state.on rest).next = false) :
    Parses .operand (state.on (⟨.integer digits, pos, spaced⟩ :: rest)) (.int pos n) (state.on rest) := by
  apply Parses.of_step
  have stays : Parses (.trailers (.int pos n)) (state.on rest) (.int pos n) (state.on rest) := trailers_of_not ends
  filter_upwards [stays.eventually] with fuel trailers
  have primary : (primary (rule fuel)).run (state.on (⟨.integer digits, pos, spaced⟩ :: rest)) =
      .ok (.int pos n, state.on rest) := by
    change (fromNumber (Text.integerLiteral digits) >>= fun value => pure (Node.int pos value)).run (state.on rest) = _
    rw [read]
    rfl
  exact (run_bind_of_ok primary _).trans trailers

/-- The tokens of an integer are read as its value; a sign before it is part of it. -/
theorem unary_number (number : NumberTokens pos spaced value tokens)
    (ends : goesWithOperand (state.on rest).next = false) :
    Parses .unary (state.on (tokens ++ rest)) (.int pos value) (state.on rest) := by
  apply Parses.of_step
  cases number with
  | natural read =>
    have operand := operand_number pos spaced read ends
    filter_upwards [operand.eventually] with fuel operand
    change (unary (rule fuel)).run _ = _
    rw [unary, run_bind_of_ok (run_peek _)]
    exact operand
  | @negative n digits pos' read =>
    have operand := operand_number pos' false read ends
    filter_upwards [operand.eventually] with fuel operand
    change (unary (rule fuel)).run _ = _
    rw [unary, run_bind_of_ok (run_peek _)]
    change (do return signed pos "-" (← rule fuel .operand) : Parser Node).run
      (state.on (⟨.integer digits, pos', false⟩ :: rest)) = _
    rw [run_bind_of_ok operand]
    rfl

theorem expression_number (number : NumberTokens pos spaced value tokens)
    (ends : goesWithExpression (state.on rest).next = false) :
    Parses .expression (state.on (tokens ++ rest)) (.int pos value) (state.on rest) :=
  expression_of_unary (unary_number number (goesWithOperand_of_expression ends)) ends

/-- An integer behind a blank is the argument of the command in front of it. -/
theorem bareArguments_number (number : NumberTokens pos true value tokens)
    (stops : goesWithArgument (state.on rest).next = false) :
    Yields bareArguments (state.on (tokens ++ rest)) [.int pos value] (state.on rest) := by
  obtain ⟨ends, comma, arrow⟩ := ends_of_argument stops
  have plain (parse : Rules) (state : State) : (argument parse false).run (state.on (tokens ++ rest)) = (do
      let value ← parse .expression
      if ← check Lexeme.isArrow then
        discard advance
        skipNewlines
        return .inr (value, ← parse .expression)
      else return .inl value : Parser (Node ⊕ Node × Node)).run (state.on (tokens ++ rest)) := by
    cases number <;> rfl
  have begins : atArgument.run (state.on (tokens ++ rest)) = .ok (true, state.on (tokens ++ rest)) := by
    cases number <;> rfl
  have read : Parses .expression ((state.bar (state.barred + 1)).on (tokens ++ rest)) (.int pos value)
      ((state.bar (state.barred + 1)).on rest) := expression_number number ends
  have found : Parses (.arguments none false) ((state.bar (state.barred + 1)).on (tokens ++ rest))
      ([.int pos value], []) ((state.bar (state.barred + 1)).on rest) := by
    apply Parses.of_step
    filter_upwards [read.eventually] with fuel read
    have first : (argument (rule fuel) false).run ((state.bar (state.barred + 1)).on (tokens ++ rest)) =
        .ok (.inl (.int pos value), (state.bar (state.barred + 1)).on rest) := by
      rw [plain, run_bind_of_ok read, run_bind_of_ok (run_check _ _)]
      rw [show ((state.bar (state.barred + 1)).on rest).next = (state.on rest).next from rfl, arrow]
      rfl
    change (arguments (rule fuel) none false).run _ = _
    rw [arguments, run_bind_of_ok first, run_bind_of_ok (run_check _ _)]
    rw [show ((state.bar (state.barred + 1)).on rest).next = (state.on rest).next from rfl, comma]
    rfl
  filter_upwards [found.eventually] with fuel found
  have list : (argumentList (rule fuel) none).run ((state.on (tokens ++ rest)).bar (state.barred + 1)) =
      .ok ([.int pos value], (state.bar (state.barred + 1)).on rest) := run_bind_of_ok found _
  rw [bareArguments, run_bind_of_ok begins]
  exact run_leavingDo_of_ok _ list

end Grammar

section Recipes

open Grammar

variable {value : Int} {text : List Char}

/-- A name of a directive: a small letter, with letters, digits and underscores behind it, and no keyword. -/
structure IsDirectiveName (name : List Char) : Prop where
  first : ∃ c ∈ name.head?, c.isLower = true
  inner : ∀ c ∈ name, Spelling.isNameChar c = true
  free : String.ofList name ∉ Lexeme.keywords

theorem isLower_facts {c : Char} (small : c.isLower = true) : Text.isDigit c = false ∧ Text.isLetter c = true ∧
    Text.isUpper c = false ∧ Scan.BeginsToken c := by
  have lower : c.isLower = (decide (97 ≤ c.toNat) && decide (c.toNat ≤ 122)) := rfl
  have range : 97 ≤ c.toNat ∧ c.toNat ≤ 122 := by simpa [small] using lower
  have ascii : c.toNat < 128 := by omega
  have digit : c.isDigit = false := by
    have digits : c.isDigit = (decide (48 ≤ c.toNat) && decide (c.toNat ≤ 57)) := rfl
    rw [digits, decide_eq_false (by omega : ¬ c.toNat ≤ 57), Bool.and_false]
  have upper : c.isUpper = false := by
    have capitals : c.isUpper = decide (65 ≤ c.toNat ∧ c.toNat ≤ 90) := rfl
    rw [capitals, decide_eq_false (by omega)]
  have letter : c.isAlpha = true := by
    have either : c.isAlpha = (c.isUpper || c.isLower) := rfl
    rw [either, small, Bool.or_true]
  have other : ∀ d ∈ ['=', '_', ' ', '\t', '\r', '\\', '#', '\n', '<'], c ≠ d := by
    have none : ['=', '_', ' ', '\t', '\r', '\\', '#', '\n', '<'].all (!·.isLower) = true := by decide
    intro d mem same
    have large : (!d.isLower) = true := List.all_eq_true.1 none d mem
    rw [← same, small] at large
    cases large
  simp only [List.forall_mem_cons] at other
  obtain ⟨equals, line, blank, tab, feed, escape, hash, newline, less, -⟩ := other
  have solid : Gap.isSpace c = false := by simp [Gap.isSpace, blank, tab, feed]
  refine ⟨by rw [Text.isDigit, if_pos ascii, digit], ?_, by rw [Text.isUpper, if_pos ascii, upper], ?_⟩
  · rw [Text.isLetter, if_pos ascii, letter]
  · exact ⟨equals, line, solid, escape, hash, newline, less⟩

/-- A name with a blank behind it is one token. -/
theorem word_name {name more : List Char} (named : IsDirectiveName name) :
    Spelling.word none (name ++ ' ' :: more) = (.identifier (String.ofList name), ' ' :: more) := by
  obtain ⟨c, first, small⟩ := named.first
  have stem : (name ++ ' ' :: more).takeWhile Spelling.isNameChar = name := by
    rw [List.takeWhile_append_of_pos named.inner, List.takeWhile_cons_of_neg (by decide), List.append_nil]
  have length : Spelling.wordLength (name ++ ' ' :: more) = name.length := by
    rw [Spelling.wordLength, stem, List.drop_left]
    rfl
  have head : (name ++ ' ' :: more).head? = some c := by rw [List.head?_append, first, Option.some_or]
  rw [Spelling.word, length, List.take_left, List.drop_left]
  simp [named.free, head, (isLower_facts small).2.2.1]

/-- A name and, behind a blank, an integer up to the end of the text. -/
theorem scans_command (code : Body.Reader) (state : Scan.State) {name : List Char} (named : IsDirectiveName name)
    (written : WritesInteger value text) (front : state.cursor.rest = name ++ ' ' :: text) (first : state.last = none)
    (idle : state.pending = []) : ∃ tokens last pos, NumberTokens pos true value tokens ∧ last.lexeme = .endOfText ∧
      Scan.Scans code state
        (⟨.identifier (String.ofList name), state.cursor.pos, state.spaced⟩ :: (tokens ++ [last])) [] := by
  obtain ⟨c, head, small⟩ := named.first
  obtain ⟨others, rfl⟩ := List.head?_eq_some_iff.1 head
  obtain ⟨digit, letter, -, begins⟩ := isLower_facts small
  have plain : Scan.plainToken code state c = .ok (.identifier (String.ofList (c :: others)), ' ' :: text) := by
    rw [Scan.plainToken, if_neg (by rw [digit]; decide), letter, first, front, word_name named]
    rfl
  let mid := state.taken (.identifier (String.ofList (c :: others))) (' ' :: text)
  have behind : mid.cursor.rest = ' ' :: text := Scan.rest_moveTo (front ▸ List.suffix_append _ _)
  let last : Scan.State := { mid with cursor := mid.cursor.next, spaced := true }
  have blank : Scan.Step code mid ⟨[], [], last⟩ :=
    .blank behind (Scan.atCode_of_head behind (by decide) (by decide)) rfl
  have rest : last.cursor.rest = text := by rw [Scan.rest_next, behind, List.tail_cons]
  obtain ⟨tokens, final, number, ends, scans⟩ := Scan.scans_integer code last written rest idle
  exact ⟨tokens, final, _, number, ends, .of_plainToken front begins plain (.next blank scans)⟩

theorem stops_at_end {last : Token} (final : last.lexeme = .endOfText) : goesWithArgument last = false := by
  simp [goesWithArgument, goesWithExpression, goesWithOperand, final, Lexeme.isDot, Lexeme.isDoubleColon,
    Lexeme.isOpening, Lexeme.isQuestion, Lexeme.isComma, Lexeme.isArrow, Lexeme.operator?]

/-- An integer is a whole statement, and so is a name with an integer behind a blank. -/
theorem statement_number {last : Token} {tokens : List Token} {pos : Position} {spaced : Bool}
    (final : last.lexeme = .endOfText) (number : NumberTokens pos spaced value tokens) :
    Parses .statement ((atEnd last).on tokens) (.int pos value) (atEnd last) := by
  have read : Parses .expression ((atEnd last).on (tokens ++ [])) (.int pos value) ((atEnd last).on []) :=
    expression_number number (ends_of_argument (stops_at_end final)).1
  rw [List.append_nil] at read
  refine statement_of_expression read (by cases number <;> rfl) ?_
  change goesWithStatement last.lexeme = false
  rw [final]
  rfl

theorem statement_command {last : Token} {tokens : List Token} {name : String} {pos pos' : Position} {spaced : Bool}
    (final : last.lexeme = .endOfText) (number : NumberTokens pos' true value tokens) :
    Parses .statement ((atEnd last).on (⟨.identifier name, pos, spaced⟩ :: tokens))
      (.call pos name none [.int pos' value] none false) (atEnd last) := by
  have stops := stops_at_end final
  have arguments : Yields bareArguments ((atEnd last).on (tokens ++ [])) [.int pos' value] ((atEnd last).on []) :=
    bareArguments_number number stops
  rw [List.append_nil] at arguments
  have paren : (((atEnd last).on tokens).next.lexeme.isOpening .round &&
      !((atEnd last).on tokens).next.spaced) = false := by
    cases number <;> rfl
  have brace : (atEnd last).next.lexeme.isOpening .curly = false := by
    change last.lexeme.isOpening .curly = false
    rw [final]
    rfl
  have word : (atEnd last).next.lexeme.isKeyword "do" = false := by
    change last.lexeme.isKeyword "do" = false
    rw [final]
    rfl
  have none : Yields blockOption ((atEnd last).on []) none (atEnd last) :=
    Filter.Eventually.of_forall fun fuel => run_blockOption_none brace (.inl word)
  have call : Parses .expression ((atEnd last).on (⟨.identifier name, pos, spaced⟩ :: tokens))
      (.call pos name .none [.int pos' value] .none false) (atEnd last) :=
    call_expression rfl paren arguments none (ends_of_argument stops).1
  refine statement_of_expression call rfl ?_
  change goesWithStatement last.lexeme = false
  rw [final]
  rfl

theorem int_of_args {directive : Directive} {pos : Position} (args : directive.args = [.int pos value]) :
    directive.int = .ok value := by
  rw [Directive.int, Directive.arguments, args]
  rfl

end Recipes

end Formulary
