import Formulary.Token.Heredoc
import Formulary.Token.Percent
import Formulary.Token.Spelling

/-!
What is read off the start of a text hangs on what follows it by a character or two at most. Where a blank or a
newline follows, it does not matter which.
-/

namespace Formulary.Seam

open Gap Spelling

/-- A text that begins with a blank or a newline, if it is not empty. -/
def Soft (text : List Char) : Prop :=
  ∀ c ∈ text.head?, isSpace c = true ∨ c = '\n'

theorem soft_nil : Soft [] := nofun

/-- A test that no blank and no newline passes. -/
def Hard (test : Char → Bool) : Prop :=
  test ' ' = false ∧ test '\t' = false ∧ test '\r' = false ∧ test '\n' = false

instance (test : Char → Bool) : Decidable (Hard test) :=
  inferInstanceAs (Decidable (_ ∧ _))

theorem hard_isDigit : Hard Text.isDigit := by decide

theorem hard_isDigitChar : Hard isDigitChar := by decide

theorem hard_isNameChar : Hard isNameChar := by decide

theorem hard_isNamePart : Hard Heredoc.isNamePart := by decide

theorem Hard.eq_false {test : Char → Bool} (hard : Hard test) {c : Char} (soft : isSpace c = true ∨ c = '\n') :
    test c = false := by
  obtain ⟨space, tab, back, line⟩ := hard
  obtain blank | rfl := soft
  · simp only [isSpace, Bool.or_eq_true, decide_eq_true_eq] at blank
    obtain (rfl | rfl) | rfl := blank
    · exact space
    · exact tab
    · exact back
  · exact line

/-- A word without blanks and newlines. -/
def isSolid (word : String) : Bool :=
  word.toList.all fun c => !isSpace c && c != '\n'

theorem solid_operators : operators.all isSolid = true := by decide

variable {rest : List Char} (soft : Soft rest)
include soft

theorem Soft.head_any (test : Char → Bool) (hard : Hard test) : rest.head?.any test = false := by
  cases rest with
  | nil => rfl
  | cons c more => exact hard.eq_false (soft c rfl)

theorem Soft.head_ne (c : Char) (hard : Hard (· == c)) : rest.head? ≠ some c := by
  intro head
  have := soft.head_any _ hard
  simp [head] at this

theorem head_any_append {test : Char → Bool} (hard : Hard test) (text : List Char) :
    (text ++ rest).head?.any test = text.head?.any test := by
  cases text with
  | nil => exact soft.head_any test hard
  | cons c more => rfl

theorem head_eq_append {c : Char} (hard : Hard (· == c)) (text : List Char) :
    (text ++ rest).head? = some c ↔ text.head? = some c := by
  cases text with
  | nil => simp [soft.head_ne c hard]
  | cons d more => rfl

theorem takeWhile_append {test : Char → Bool} (hard : Hard test) (text : List Char) :
    (text ++ rest).takeWhile test = text.takeWhile test := by
  induction text with
  | nil =>
    cases rest with
    | nil => rfl
    | cons c more => simp [hard.eq_false (soft c rfl)]
  | cons c more ih => simp [List.takeWhile_cons, ih]

theorem dropWhile_append {test : Char → Bool} (hard : Hard test) (text : List Char) :
    (text ++ rest).dropWhile test = text.dropWhile test ++ rest := by
  induction text with
  | nil =>
    cases rest with
    | nil => rfl
    | cons c more => simp [hard.eq_false (soft c rfl)]
  | cons c more ih =>
    cases h : test c <;> simp [h, ih]

/-- A word without blanks and newlines begins the text that stands before one, or does not begin it at all. -/
theorem startsWith_append (word : String) (solid : isSolid word = true) (text : List Char) :
    startsWith (text ++ rest) word = startsWith text word := by
  have hard : ∀ c ∈ word.toList, isSpace c = false ∧ c ≠ '\n' := by
    simpa [isSolid] using solid
  unfold startsWith
  generalize word.toList = letters at hard
  induction letters generalizing text with
  | nil => rfl
  | cons c more ih =>
    cases text with
    | nil =>
      cases rest with
      | nil => rfl
      | cons d others =>
        have differs : (c == d) = false := by
          rw [beq_eq_false_iff_ne]
          rintro rfl
          obtain blank | line := soft c rfl
          · simp [(hard c (.head _)).1] at blank
          · exact (hard c (.head _)).2 line
        simp [List.isPrefixOf, differs]
    | cons d others =>
      simp only [List.cons_append, List.isPrefixOf]
      rw [ih others fun c mem => hard c (.tail _ mem)]

/-! Numbers -/

theorem beginsWithDigit_append (text : List Char) : beginsWithDigit (text ++ rest) = beginsWithDigit text :=
  head_any_append soft hard_isDigit text

theorem fractionPart_append (text : List Char) : fractionPart (text ++ rest) = fractionPart text := by
  cases text with
  | nil =>
    have point := soft.head_ne '.' (by decide)
    cases rest with
    | nil => rfl
    | cons c more =>
      have : c ≠ '.' := by simpa using point
      simp [fractionPart, this]
  | cons c more =>
    by_cases point : c = '.'
    · subst point
      simp [fractionPart, beginsWithDigit_append soft, takeWhile_append soft hard_isDigitChar]
    · simp [fractionPart, point]

theorem powerPart_append (text : List Char) : powerPart (text ++ rest) = powerPart text := by
  match text with
  | [] =>
    have mark := soft.head_any Text.isPowerMark (by decide)
    cases rest with
    | nil => rfl
    | cons c more =>
      have : Text.isPowerMark c = false := mark
      simp [powerPart, this]
  | [c] =>
    have plus := soft.head_ne '+' (by decide)
    have minus := soft.head_ne '-' (by decide)
    have digit := soft.head_any _ hard_isDigit
    cases rest with
    | nil => rfl
    | cons s more =>
      have plus : s ≠ '+' := by simpa using plus
      have minus : s ≠ '-' := by simpa using minus
      have digit : Text.isDigit s = false := digit
      simp [powerPart, plus, minus, digit]
  | c :: s :: digits =>
    have whole := takeWhile_append soft hard_isDigitChar (s :: digits)
    simp only [List.cons_append] at whole
    simp only [List.cons_append, powerPart, beginsWithDigit_append soft, takeWhile_append soft hard_isDigitChar, whole]

omit soft in
theorem fractionPart_begins (text : List Char) : fractionPart text <+: text := by
  unfold fractionPart
  split
  · split
    · exact List.prefix_cons_inj '.' |>.2 (List.takeWhile_prefix _)
    · exact List.nil_prefix
  · exact List.nil_prefix

omit soft in
theorem powerPart_begins (text : List Char) : powerPart text <+: text := by
  match text with
  | [] => exact List.nil_prefix
  | [c] => simp [powerPart]
  | c :: s :: digits =>
    simp only [powerPart]
    repeat' split
    all_goals first
      | exact List.nil_prefix
      | simp only [List.prefix_cons_inj]; exact List.takeWhile_prefix _

omit soft in
/-- The spelling of a decimal number begins the text. -/
theorem length_decimal_le (text : List Char) :
    (text.takeWhile isDigitChar).length +
      (fractionPart (text.drop (text.takeWhile isDigitChar).length)).length +
      (powerPart (text.drop ((text.takeWhile isDigitChar).length +
        (fractionPart (text.drop (text.takeWhile isDigitChar).length)).length))).length ≤ text.length := by
  have whole := (List.takeWhile_prefix isDigitChar (l := text)).length_le
  have fraction := (fractionPart_begins (text.drop (text.takeWhile isDigitChar).length)).length_le
  have power := (powerPart_begins (text.drop ((text.takeWhile isDigitChar).length +
        (fractionPart (text.drop (text.takeWhile isDigitChar).length)).length))).length_le
  simp only [List.length_drop] at fraction power
  omega

theorem decimalNumber_append (text : List Char) :
    decimalNumber (text ++ rest) = ((decimalNumber text).1, (decimalNumber text).2 ++ rest) := by
  have bound := length_decimal_le text
  unfold decimalNumber
  simp only [takeWhile_append soft hard_isDigitChar]
  rw [List.drop_append_of_le_length (by omega), fractionPart_append soft,
    List.drop_append_of_le_length (by omega), powerPart_append soft,
    List.drop_append_of_le_length (by simpa [Nat.add_assoc] using bound)]

theorem number_append (text : List Char) :
    number (text ++ rest) = ((number text).1, (number text).2 ++ rest) := by
  have decimal := decimalNumber_append soft text
  match text with
  | [] =>
    have zero := soft.head_ne '0' (by decide)
    cases rest with
    | nil => exact decimal
    | cons c more =>
      have zero : c ≠ '0' := by simpa using zero
      simpa [number, zero] using decimal
  | [c] =>
    have mark := soft.head_any isBaseMark (by decide)
    cases rest with
    | nil => simp
    | cons d more =>
      have mark : isBaseMark d = false := mark
      by_cases zero : c = '0'
      · subst zero
        simpa [number, mark] using decimal
      · simpa [number, zero] using decimal
  | c :: mark :: more =>
    by_cases zero : c = '0'
    · subst zero
      cases base : isBaseMark mark
      · simpa [number, base] using decimal
      · simp [number, base, takeWhile_append soft hard_isNameChar, dropWhile_append soft hard_isNameChar]
    · simpa [number, zero] using decimal

/-! Words -/

omit soft in
theorem length_takeWhile_le (test : Char → Bool) (text : List Char) :
    (text.takeWhile test).length ≤ text.length :=
  (List.takeWhile_prefix test).length_le

theorem wordLength_append (text : List Char) : wordLength (text ++ rest) = wordLength text := by
  unfold wordLength
  simp only [takeWhile_append soft hard_isNameChar]
  rw [List.drop_append_of_le_length (length_takeWhile_le isNameChar text)]
  generalize (text.takeWhile isNameChar).length = length
  have query := soft.head_ne '?' (by decide)
  have bang := soft.head_ne '!' (by decide)
  have equal := soft.head_ne '=' (by decide)
  match text.drop length with
  | [] =>
    cases rest with
    | nil => rfl
    | cons c more =>
      have query : c ≠ '?' := by simpa using query
      have bang : c ≠ '!' := by simpa using bang
      simp [query, bang]
  | [mark] => simp [equal]
  | [mark, next] => simp [equal]
  | mark :: next :: other :: more => rfl

omit soft in
theorem wordLength_le (text : List Char) : wordLength text ≤ text.length := by
  have bound := length_takeWhile_le isNameChar text
  unfold wordLength
  simp only
  split
  · rename_i mark more behind
    have := congrArg List.length behind
    simp only [List.length_drop, List.length_cons] at this
    split <;> omega
  · exact bound

theorem word_append (last : Option (Lexeme Token)) (text : List Char) :
    word last (text ++ rest) = ((word last text).1, (word last text).2 ++ rest) := by
  have bound := wordLength_le text
  have upper : Hard Text.isUpper := by decide
  unfold word
  simp only [wordLength_append soft, List.take_append_of_le_length bound, List.drop_append_of_le_length bound,
    head_any_append soft upper]
  generalize String.ofList (text.take (wordLength text)) = name
  have colon := soft.head_ne ':' (by decide)
  generalize text.drop (wordLength text) = behind
  have ends : ((behind ++ rest).head? = some ':' ∧ (behind ++ rest).tail.head? ≠ some ':') =
      (behind.head? = some ':' ∧ behind.tail.head? ≠ some ':') := by
    match behind with
    | [] => simp [colon]
    | [c] => simp [colon]
    | c :: d :: more => rfl
  simp only [← and_assoc, ends]
  by_cases label : (behind.head? = some ':' ∧ behind.tail.head? ≠ some ':') ∧ !(last.any Lexeme.isQuestion)
  · have some : behind ≠ [] := by
      rintro rfl
      simp at label
    rw [if_pos label, if_pos label, List.tail_append_of_ne_nil some]
  · rw [if_neg label, if_neg label]
    split
    · rfl
    · split <;> rfl

theorem symbolLength_append (text : List Char) : symbolLength (text ++ rest) = symbolLength text := by
  unfold symbolLength
  simp only [takeWhile_append soft hard_isNameChar]
  rw [List.drop_append_of_le_length (length_takeWhile_le isNameChar text)]
  generalize (text.takeWhile isNameChar).length = length
  have query := soft.head_ne '?' (by decide)
  have bang := soft.head_ne '!' (by decide)
  have equal := soft.head_ne '=' (by decide)
  have sign := soft.head_any (fun c => c = '=' || c = '~' || c = '>') (by decide)
  match text.drop length with
  | [] =>
    cases rest with
    | nil => rfl
    | cons c more =>
      have query : c ≠ '?' := by simpa using query
      have bang : c ≠ '!' := by simpa using bang
      have equal : c ≠ '=' := by simpa using equal
      simp [query, bang, equal]
  | [mark] =>
    simp only [List.cons_append, List.nil_append, sign]
    rfl
  | mark :: next :: more => rfl

omit soft in
theorem symbolLength_le (text : List Char) : symbolLength text ≤ text.length := by
  have bound := length_takeWhile_le isNameChar text
  unfold symbolLength
  simp only
  split
  · rename_i mark more behind
    have := congrArg List.length behind
    simp only [List.length_drop, List.length_cons] at this
    split <;> omega
  · exact bound

/-! Signs -/

omit soft in
theorem length_le_of_startsWith {text : List Char} {word : String} (h : startsWith text word = true) :
    word.length ≤ text.length := by
  have front := List.isPrefixOf_iff_prefix.1 h
  rw [← String.length_toList]
  exact front.length_le

theorem sign_append (text : List Char) :
    sign (text ++ rest) = (sign text).map fun (lexeme, behind) => (lexeme, behind ++ rest) := by
  unfold sign
  rw [startsWith_append soft "=>" (by decide), startsWith_append soft "&." (by decide),
    startsWith_append soft "&.." (by decide)]
  have found : operators.find? (startsWith (text ++ rest) ·) = operators.find? (startsWith text ·) := by
    rw [← List.head?_filter, ← List.head?_filter]
    exact congrArg List.head? (List.filter_congr fun op mem =>
      startsWith_append soft op (List.all_eq_true.1 solid_operators op mem) text)
  rw [found]
  by_cases arrow : startsWith text "=>" = true
  · have bound : 2 ≤ text.length := length_le_of_startsWith arrow
    rw [if_pos arrow, if_pos arrow, List.drop_append_of_le_length bound]
    rfl
  by_cases safe : (startsWith text "&." && !startsWith text "&..") = true
  · have bound : 2 ≤ text.length := length_le_of_startsWith (Bool.and_eq_true_iff.1 safe).1
    rw [if_neg arrow, if_neg arrow, if_pos safe, if_pos safe, List.drop_append_of_le_length bound]
    rfl
  rw [if_neg arrow, if_neg arrow, if_neg safe, if_neg safe]
  cases op : operators.find? (startsWith text ·) with
  | some spelling =>
    have bound := length_le_of_startsWith (List.find?_some op)
    simp only [List.drop_append_of_le_length bound, Option.map_some]
  | none =>
    cases text with
    | nil =>
      have plain := soft.head_any (fun c => (punctuation? c).isSome) (by decide)
      cases rest with
      | nil => rfl
      | cons c more =>
        have plain : punctuation? c = none := by simpa using plain
        simp [plain]
    | cons c more => cases h : punctuation? c <;> simp [h]

omit soft in
theorem instanceName_of_ne {text : List Char} (single : text.head? ≠ some '@') :
    instanceName text = if (text.takeWhile isNameChar).isEmpty then none
      else some (.instanceVar ("@" ++ String.ofList (text.takeWhile isNameChar)), text.dropWhile isNameChar) := by
  cases text with
  | nil => rfl
  | cons c more =>
    have single : c ≠ '@' := by simpa using single
    unfold instanceName
    split
    rename_i sigil behind read
    split at read
    · simp_all
    · obtain ⟨rfl, rfl⟩ := Prod.mk.inj read
      rfl

theorem instanceName_append (text : List Char) :
    instanceName (text ++ rest) = (instanceName text).map fun (lexeme, behind) => (lexeme, behind ++ rest) := by
  by_cases double : text.head? = some '@'
  · obtain ⟨more, rfl⟩ := List.head?_eq_some_iff.1 double
    simp only [instanceName, List.cons_append, takeWhile_append soft hard_isNameChar,
      dropWhile_append soft hard_isNameChar]
    split <;> rfl
  · have single : (text ++ rest).head? ≠ some '@' := mt (head_eq_append soft (by decide) text).1 double
    rw [instanceName_of_ne double, instanceName_of_ne single, takeWhile_append soft hard_isNameChar,
      dropWhile_append soft hard_isNameChar]
    split <;> rfl

theorem globalName_append (c : Char) (text : List Char) :
    globalName (c :: text ++ rest) =
      (globalName (c :: text)).map fun (lexeme, behind) => (lexeme, behind ++ rest) := by
  unfold globalName
  rw [takeWhile_append soft hard_isNameChar, dropWhile_append soft hard_isNameChar]
  dsimp only
  split <;> rfl

/-! Heredoc openers -/

theorem readMargin_append (text : List Char) :
    Heredoc.readMargin (text ++ rest) = ((Heredoc.readMargin text).1, (Heredoc.readMargin text).2 ++ rest) := by
  have trim := soft.head_ne '~' (by decide)
  have indent := soft.head_ne '-' (by decide)
  match text, rest with
  | [], [] => rfl
  | [], c :: more =>
    have trim : c ≠ '~' := by simpa using trim
    have indent : c ≠ '-' := by simpa using indent
    simp [Heredoc.readMargin, trim, indent]
  | c :: more, rest =>
    by_cases trim : c = '~'
    · subst trim
      rfl
    · by_cases indent : c = '-'
      · subst indent
        rfl
      · simp [Heredoc.readMargin, trim, indent]

theorem readQuote_append (text : List Char) :
    Heredoc.readQuote (text ++ rest) = ((Heredoc.readQuote text).1, (Heredoc.readQuote text).2 ++ rest) := by
  have double := soft.head_ne '"' (by decide)
  have single := soft.head_ne '\'' (by decide)
  match text, rest with
  | [], [] => rfl
  | [], c :: more =>
    have double : c ≠ '"' := by simpa using double
    have single : c ≠ '\'' := by simpa using single
    simp [Heredoc.readQuote, double, single]
  | c :: more, rest =>
    by_cases double : c = '"'
    · subst double
      rfl
    · by_cases single : c = '\''
      · subst single
        rfl
      · simp [Heredoc.readQuote, double, single]

omit soft in
theorem hard_of_readQuote {text : List Char} {quote : Char} (h : (Heredoc.readQuote text).1 = some quote) :
    Hard (· == quote) := by
  unfold Heredoc.readQuote at h
  split at h
  · obtain rfl : '"' = quote := by simpa using h
    decide
  · obtain rfl : '\'' = quote := by simpa using h
    decide
  · contradiction

theorem heredocName_append (text : List Char) :
    (if (text ++ rest).head?.any Heredoc.isNameStart then (text ++ rest).takeWhile Heredoc.isNamePart else []) =
      if text.head?.any Heredoc.isNameStart then text.takeWhile Heredoc.isNamePart else [] := by
  rw [head_any_append soft (by decide), takeWhile_append soft hard_isNamePart]

theorem closingQuote_append {quote : Char} (hard : Hard (· == quote)) (opener : Heredoc.Opener) (text : List Char) :
    (if (text ++ rest).head? = some quote then some (opener, (text ++ rest).tail) else none) =
      (if text.head? = some quote then some (opener, text.tail) else none).map
        fun (opener, behind) => (opener, behind ++ rest) := by
  by_cases closed : text.head? = some quote
  · have some : text ≠ [] := by
      rintro rfl
      contradiction
    rw [if_pos ((head_eq_append soft hard text).2 closed), if_pos closed, List.tail_append_of_ne_nil some]
    rfl
  · rw [if_neg (mt (head_eq_append soft hard text).1 closed), if_neg closed]
    rfl

theorem readOpener_append (text : List Char) :
    Heredoc.readOpener (text ++ rest) =
      (Heredoc.readOpener text).map fun (opener, behind) => (opener, behind ++ rest) := by
  match text with
  | [] =>
    have less := soft.head_ne '<' (by decide)
    cases rest with
    | nil => rfl
    | cons c more =>
      have less : c ≠ '<' := by simpa using less
      simp [Heredoc.readOpener, less]
  | [c] =>
    have less := soft.head_ne '<' (by decide)
    cases rest with
    | nil => simp [Heredoc.readOpener]
    | cons d more =>
      have less : d ≠ '<' := by simpa using less
      simp [Heredoc.readOpener, less]
  | c :: d :: more =>
    by_cases less : c = '<' ∧ d = '<'
    · obtain ⟨rfl, rfl⟩ := less
      simp only [List.cons_append, Heredoc.readOpener, readMargin_append soft, readQuote_append soft]
      have hard (q : Char) : (Heredoc.readQuote (Heredoc.readMargin more).2).1 = some q → Hard (· == q) :=
        hard_of_readQuote
      generalize (Heredoc.readQuote (Heredoc.readMargin more).2).1 = quote at hard
      generalize (Heredoc.readQuote (Heredoc.readMargin more).2).2 = body
      rw [heredocName_append soft]
      have bound : (if body.head?.any Heredoc.isNameStart then body.takeWhile Heredoc.isNamePart else []).length ≤
          body.length := by
        split
        · exact length_takeWhile_le _ _
        · exact Nat.zero_le _
      generalize (if body.head?.any Heredoc.isNameStart then body.takeWhile Heredoc.isNamePart else []) = name at bound
      rw [List.drop_append_of_le_length bound]
      cases name with
      | nil => rfl
      | cons first others =>
        cases quote with
        | none =>
          dsimp only
          split <;> rfl
        | some q => exact closingQuote_append soft (hard q rfl) _ _
    · have neither (text : List Char) : Heredoc.readOpener (c :: d :: text) = none := by
        unfold Heredoc.readOpener
        split
        · simp_all
        · rfl
      simp [neither]

/-! Percent literals -/

omit soft

/-- The percent literal of a kind with a delimiter, if the delimiter can be one. -/
def percentOf (first delimiter : Char) : Option Percent :=
  if Text.isAlphanumeric delimiter || [' ', '\t', '\n', '='].contains delimiter then none
  else
    let named := Percent.kinds.contains first
    let kind := if named then first else 'Q'
    let (opener, closer) := Percent.closingOf delimiter
    some ⟨kind, if named then 3 else 2, ⟨opener, closer, Percent.embedsCode kind⟩⟩

theorem read?_cons (first : Char) (more : List Char) : Percent.read? (first :: more) =
    if Percent.kinds.contains first then more.head?.bind (percentOf first) else percentOf first first := by
  unfold Percent.read? percentOf
  simp only [List.head?_cons, Option.bind_eq_bind, Option.bind_some, List.tail_cons]
  cases Percent.kinds.contains first with
  | false => rfl
  | true => cases more <;> rfl

theorem percentOf_soft {first delimiter : Char} (soft : isSpace delimiter = true ∨ delimiter = '\n')
    (plain : delimiter ≠ '\r') : percentOf first delimiter = none := by
  simp only [isSpace, Bool.or_eq_true, decide_eq_true_eq] at soft
  obtain ((rfl | rfl) | back) | rfl := soft
  · rfl
  · rfl
  · exact absurd back plain
  · rfl

/-- A carriage return alone can be taken for the delimiter of a literal. -/
theorem read?_append (soft : Soft rest) {text : List Char}
    (plain : rest.head? = some '\r' → text ≠ [] ∧ ∀ kind ∈ Percent.kinds, text ≠ [kind]) :
    Percent.read? (text ++ rest) = Percent.read? text := by
  match text with
  | [] =>
    cases rest with
    | nil => rfl
    | cons c more =>
      have plain : c ≠ '\r' := fun eq => (plain (by simp [eq])).1 rfl
      have unnamed : Percent.kinds.contains c = false := soft.head_any Percent.kinds.contains (by decide)
      rw [List.nil_append, read?_cons, unnamed]
      exact percentOf_soft (soft c rfl) plain
  | [first] =>
    rw [List.singleton_append, read?_cons, read?_cons]
    cases named : Percent.kinds.contains first with
    | false => rfl
    | true =>
      cases rest with
      | nil => rfl
      | cons c more =>
        have plain : c ≠ '\r' := fun eq => (plain (by simp [eq])).2 first (by simpa using named) rfl
        exact percentOf_soft (soft c rfl) plain
  | first :: delimiter :: more => rw [List.cons_append, List.cons_append, read?_cons, read?_cons]; rfl

end Formulary.Seam
