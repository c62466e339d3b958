import Formulary.Proofs.LineEnd.Body
import Formulary.Proofs.Token.Twin

/-! The tokens of a line are read alike, whatever ends the line, as long as none of them holds a newline. -/

namespace Formulary.LineEnd

open Body Gap Result Scan Seam Spelling

variable {code code' : Reader} {bound : Nat} {cursor cursor' : Cursor} {state state' : State}
  {marks : Literal.Delimiters} {c : Char} {text more : List Char}

/-- Readers that read the same in code shorter than a bound, but for positions. -/
structure Mutual (bound : Nat) (code code' : Reader) : Prop where
  forth : Refines bound code code'
  back : Refines bound code' code

/-- The same token but for positions, and the rest of a text with the other line ends. -/
def SameToken (found found' : Lexeme Token × List Char) : Prop :=
  found'.1.place nowhere = found.1.place nowhere ∧ found'.2 = crlf found.2

def SameSegments (found found' : Segments × List Char) : Prop :=
  unplacedSegments found'.1 = unplacedSegments found.1 ∧ found'.2 = crlf found.2

theorem sameToken_of_eq {found found' : Lexeme Token × List Char} (same : found' = (found.1, crlf found.2)) :
    SameToken found found' := by
  rw [same]
  exact ⟨rfl, rfl⟩

/-- What a reader takes off a text, or fails to. -/
theorem both_of_map {fault fault' : Malformed} {found found' : Option (Lexeme Token × List Char)}
    (same : found' = found.map fun (lexeme, behind) => (lexeme, crlf behind)) :
    Both SameToken (found.elim (.error fault) .ok) (found'.elim (.error fault') .ok) := by
  rw [same]
  cases found with
  | none => trivial
  | some found => exact ⟨rfl, rfl⟩

/-! Literals -/

/-- The body of the literal that begins at a cursor, if it ends. -/
def enclosed (marks : Literal.Delimiters) (cursor : Cursor) : List Char :=
  match body marks cursor with
  | .ok (text, _) => text
  | .error _ => []

theorem segments_mutual (readers : Mutual bound code code') {embeds : Bool} {closer : Option Char} (pos pos' : Position)
    (short : text.length ≤ bound) : Both (fun found found' => unplacedSegments found' = unplacedSegments found)
      (Literal.segments code embeds closer pos text) (Literal.segments code' embeds closer pos' text) :=
  .of_toOption_map_eq (toOption_map_eq (fun _ => segments_refines readers.forth pos' short)
    fun _ => segments_refines readers.back pos short)

section Literals

variable (front : cursor'.rest = crlf cursor.rest)
include front

section Delimiters

variable (inline : Inline marks)
include inline

theorem body_crlf : Both SameBody (body marks cursor) (body marks cursor') := by
  have read : Both SameBody (Literal.readBody marks 0 0 cursor.pos cursor.rest)
      (Literal.readBody marks 0 0 cursor'.pos cursor'.rest) :=
    front ▸ readBody_crlf inline 0 0 cursor.pos cursor'.pos cursor.rest
  unfold body
  generalize Literal.readBody marks 0 0 cursor.pos cursor.rest = found at read
  generalize Literal.readBody marks 0 0 cursor'.pos cursor'.rest = found' at read
  cases found with
  | ok value =>
    cases found' with
    | ok value' => exact read
    | error fault => exact read.elim
  | error fault =>
    cases found' with
    | ok value' => exact read.elim
    | error fault' => cases fault <;> cases fault' <;> trivial

/-- A body without newlines is the same with the other line ends. -/
theorem body_inline (unbroken : '\n' ∉ enclosed marks cursor) :
    Both (fun found found' => found' = (found.1, crlf found.2)) (body marks cursor) (body marks cursor') := by
  refine (body_crlf front inline).imp fun found found' hbody same => ?_
  unfold enclosed at unbroken
  rw [hbody] at unbroken
  exact Prod.ext (same.1.trans (crlf_eq_self unbroken)) same.2

theorem regexp_crlf (unbroken : '\n' ∉ enclosed marks cursor) :
    Both SameToken (regexp marks cursor) (regexp marks cursor') := by
  refine (body_inline front inline unbroken).bind ?_
  rintro ⟨text, behind⟩ _ - rfl
  exact sameToken_of_eq (by rw [takeWhile_crlf hard_isFlag, dropWhile_crlf hard_isFlag])

theorem listed_crlf (unbroken : '\n' ∉ enclosed marks cursor) (build : List String → Lexeme Token) :
    Both SameToken (do let (text, behind) ← body marks cursor; return (build (wordList text), behind))
      (do let (text, behind) ← body marks cursor'; return (build (wordList text), behind)) := by
  refine (body_inline front inline unbroken).bind ?_
  rintro ⟨text, behind⟩ _ - rfl
  exact ⟨rfl, rfl⟩

variable (readers : Mutual bound code code') (short : cursor.rest.length ≤ bound)
include readers short

theorem literal_crlf (unbroken : '\n' ∉ enclosed marks cursor) :
    Both SameSegments (literal code marks cursor) (literal code' marks cursor') := by
  refine (body_inline front inline unbroken).bind ?_
  rintro ⟨text, behind⟩ _ hbody rfl
  have within : text.length ≤ bound := by
    have := length_of_readBody (body_eq_ok_iff.1 hbody)
    omega
  exact (segments_mutual readers cursor.pos cursor'.pos within).bind fun _ _ _ same => ⟨same, rfl⟩

theorem delimited_crlf {build : Segments → Lexeme Token}
    (places : ∀ segments, (build segments).place nowhere = build (unplacedSegments segments))
    (unbroken : '\n' ∉ enclosed marks cursor) :
    Both SameToken (do let (segments, behind) ← literal code marks cursor; return (build segments, behind))
      (do let (segments, behind) ← literal code' marks cursor'; return (build segments, behind)) := by
  refine (literal_crlf front inline readers short unbroken).bind fun found found' _ same => ⟨?_, same.2⟩
  rw [places, places, same.1]

end Delimiters

theorem percentLiteral_crlf {percent : Percent} (inline : Inline percent.marks)
    (readers : Mutual bound code code') (short : cursor.rest.length ≤ bound)
    (unbroken : '\n' ∉ enclosed percent.marks cursor) :
    Both SameToken (percentLiteral code percent cursor) (percentLiteral code' percent cursor') := by
  unfold percentLiteral
  split
  · exact regexp_crlf front inline unbroken
  split
  · exact listed_crlf front inline unbroken .words
  split
  · exact listed_crlf front inline unbroken .symbols
  · exact delimited_crlf front inline readers short (fun _ => rfl) unbroken

end Literals

theorem inline_of_closer (closer : ¬Ends c) (embeds : Bool) : Inline ⟨none, c, embeds⟩ :=
  ⟨not_ends_of_none, closer⟩

theorem quotedSymbol_crlf (front : cursor'.rest = crlf cursor.rest) (readers : Mutual bound code code')
    (short : cursor.rest.length ≤ bound) (start start' : Position) (inline : ¬Ends c)
    (unbroken : '\n' ∉ enclosed ⟨none, c, c = '"'⟩ cursor) :
    Both SameToken (quotedSymbol code c start cursor) (quotedSymbol code' c start' cursor') := by
  refine (literal_crlf front (inline_of_closer inline _) readers short unbroken).bind ?_
  rintro ⟨segments, behind⟩ ⟨segments', _⟩ - ⟨same, rfl⟩
  have text : plainText? segments' = plainText? segments := plainText?_of_unplaced same
  dsimp only
  rw [text]
  split
  · exact ⟨rfl, rfl⟩
  · trivial

/-! Spellings -/

theorem number_crlf (digit : Text.isDigit c = true) (more : List Char) :
    number (c :: crlf more) = ((number (c :: more)).1, crlf (number (c :: more)).2) :=
  take_crlf (f := fun text => number (c :: text)) (fun soft text => number_append soft (c :: text))
    (fun _ => number_suffix digit) more

theorem word_crlf (name : isNameChar c = true) (last : Option (Lexeme Token)) (more : List Char) :
    word last (c :: crlf more) = ((word last (c :: more)).1, crlf (word last (c :: more)).2) :=
  take_crlf (f := fun text => word last (c :: text)) (fun soft text => word_append soft last (c :: text))
    (fun _ => word_suffix name last) more

theorem sign_crlf (c : Char) (more : List Char) :
    sign (c :: crlf more) = (sign (c :: more)).map fun (lexeme, behind) => (lexeme, crlf behind) :=
  take?_crlf (f := fun text => sign (c :: text)) (fun soft text => sign_append soft (c :: text))
    (fun _ _ _ => sign_suffix) more

theorem readOpener_crlf (c : Char) (more : List Char) : Heredoc.readOpener (c :: crlf more) =
    (Heredoc.readOpener (c :: more)).map fun (opener, behind) => (opener, crlf behind) :=
  take?_crlf (f := fun text => Heredoc.readOpener (c :: text)) (fun soft text => readOpener_append soft (c :: text))
    (fun _ _ _ => readOpener_suffix) more

theorem instanceName_crlf (text : List Char) :
    instanceName (crlf text) = (instanceName text).map fun (lexeme, behind) => (lexeme, crlf behind) :=
  take?_crlf (fun soft => instanceName_append soft) (fun _ _ _ => instanceName_suffix) text

/-- Of the variables only a newline's own would notice. -/
theorem globalName_crlf (text : List Char) (unbroken : text.head? ≠ some '\n') :
    globalName (crlf text) = (globalName text).map fun (lexeme, behind) => (lexeme, crlf behind) := by
  cases text with
  | nil => rfl
  | cons c more =>
    have inline : c ≠ '\n' := by simpa using unbroken
    rw [crlf_cons inline]
    exact take?_crlf (f := fun text => globalName (c :: text)) (fun soft text => globalName_append soft c text)
      (fun _ _ _ => globalName_suffix) more

theorem symbol_crlf (text : List Char) :
    (Lexeme.symbol (String.ofList ((crlf text).take (symbolLength (crlf text)))),
        (crlf text).drop (symbolLength (crlf text))) =
      ((Lexeme.symbol (String.ofList (text.take (symbolLength text))) : Lexeme Token),
        crlf (text.drop (symbolLength text))) := by
  refine take_crlf (f := fun text => (Lexeme.symbol (String.ofList (text.take (symbolLength text))),
    text.drop (symbolLength text))) (fun soft text => ?_) (fun text => List.drop_suffix _ text) text
  have within := symbolLength_le text
  rw [symbolLength_append soft, List.take_append_of_le_length within, List.drop_append_of_le_length within]

theorem afterColon_crlf (front : cursor.rest = ':' :: more) (front' : cursor'.rest = ':' :: crlf more)
    (readers : Mutual bound code code') (short : cursor.rest.length ≤ bound)
    (unbroken : ∀ q ∈ more.head?, q = '"' ∨ q = '\'' → '\n' ∉ enclosed ⟨none, q, q = '"'⟩ (cursor.skip 2)) :
    Both SameToken (afterColon code cursor) (afterColon code' cursor') := by
  have tail : cursor.rest.tail = more := by rw [front, List.tail_cons]
  have tail' : cursor'.rest.tail = crlf more := by rw [front', List.tail_cons]
  cases more with
  | nil =>
    rw [afterColon_soft tail soft_nil, afterColon_soft tail' soft_nil]
    exact ⟨rfl, rfl⟩
  | cons c others =>
    by_cases newline : c = '\n'
    · subst newline
      have line : Line ('\n' :: others) := fun d head => (Option.some.inj head).symm
      rw [afterColon_soft tail line.soft, afterColon_soft tail' (line_crlf_soft line)]
      exact ⟨rfl, rfl⟩
    rw [crlf_cons newline] at front' tail'
    by_cases colon : c = ':'
    · subst colon
      rw [afterColon_colon tail, afterColon_colon tail']
      exact ⟨rfl, rfl⟩
    by_cases quote : c = '"' ∨ c = '\''
    · have behind : (cursor'.skip 2).rest = crlf (cursor.skip 2).rest := by
        rw [rest_skip, rest_skip, front, front']
        rfl
      have within : (cursor.skip 2).rest.length ≤ bound := by
        rw [rest_skip, List.length_drop]
        omega
      have closer : ¬Ends c := by obtain rfl | rfl := quote <;> decide
      rw [afterColon_quote tail quote, afterColon_quote tail' quote]
      exact quotedSymbol_crlf behind readers within _ _ closer (unbroken c rfl quote)
    rw [afterColon_other tail colon quote, afterColon_other tail' colon quote, ← crlf_cons newline]
    split
    · exact sameToken_of_eq (symbol_crlf (c :: others))
    · exact ⟨rfl, rfl⟩

/-! Percent literals -/

theorem closingOf_inline (inline : ¬Ends c) :
    (∀ d ∈ (Percent.closingOf c).1, ¬Ends d) ∧ ¬Ends (Percent.closingOf c).2 := by
  unfold Percent.closingOf
  split
  all_goals first
    | exact ⟨not_ends_of_none, inline⟩
    | exact ⟨fun d opens => Option.some.inj opens ▸ (by decide), by decide⟩

theorem inline_of_percentOf {first delimiter : Char} {percent : Percent} (back : delimiter ≠ '\r')
    (h : percentOf first delimiter = some percent) : delimiter ≠ '\n' ∧ Inline percent.marks := by
  have newline : delimiter ≠ '\n' := by
    rintro rfl
    rw [percentOf_soft (.inr rfl) (by decide)] at h
    contradiction
  refine ⟨newline, ?_⟩
  unfold percentOf at h
  split at h
  · contradiction
  · obtain rfl := Option.some.inj h
    exact closingOf_inline (not_or.2 ⟨back, newline⟩)

/-- The opening of a percent literal is on one line. -/
theorem inline_of_read? {percent : Percent} (plain : '\r' ∉ text) (h : Percent.read? text = some percent) :
    Inline percent.marks ∧ '\n' ∉ ('%' :: text).take percent.opening := by
  cases text with
  | nil => contradiction
  | cons first more =>
    rw [List.mem_cons, not_or] at plain
    rw [read?_cons] at h
    split at h
    · rename_i named
      obtain ⟨delimiter, second, h⟩ := Option.bind_eq_some_iff.1 h
      obtain ⟨others, rfl⟩ := List.head?_eq_some_iff.1 second
      rw [List.mem_cons, not_or] at plain
      obtain ⟨newline, inline⟩ := inline_of_percentOf (Ne.symm plain.2.1) h
      have kind : first ≠ '\n' := by
        rintro rfl
        contradiction
      rw [opening_percentOf h, if_pos named]
      exact ⟨inline, by simp [Ne.symm newline, Ne.symm kind]⟩
    · rename_i bare
      obtain ⟨newline, inline⟩ := inline_of_percentOf (Ne.symm plain.1) h
      rw [opening_percentOf h, if_neg bare]
      exact ⟨inline, by simp [Ne.symm newline]⟩

/-- A carriage return would be taken for a delimiter, a newline is not. -/
theorem read?_crlf (text : List Char) (first : text.head? ≠ some '\n')
    (second : ∀ kind ∈ Percent.kinds, text.take 2 ≠ [kind, '\n']) : Percent.read? (crlf text) = Percent.read? text := by
  cases text with
  | nil => rfl
  | cons kind more =>
    have inline : kind ≠ '\n' := by simpa using first
    rw [crlf_cons inline, read?_cons, read?_cons]
    split
    · rename_i named
      cases more with
      | nil => rfl
      | cons delimiter others =>
        have inline : delimiter ≠ '\n' := by
          rintro rfl
          exact second kind (by simpa using named) rfl
        rw [crlf_cons inline]
        rfl
    · rfl

/-! Tokens -/

/-- The bodies of heredocs, which follow one another. -/
def heredocText : List (Heredoc.Opener × Position) → List Char → List Char
  | [], _ => []
  | (opener, _) :: more, text =>
    match Heredoc.takeBody opener [] text with
    | some (lines, after) => lines.flatten ++ heredocText more after
    | none => []

/-- What a literal, a variable or the heredocs of a line hold: the text that a newline may not stand in. -/
def held (state : State) : List Char :=
  let cursor := state.cursor
  match cursor.rest with
  | [] => []
  | c :: more =>
    if c = '\n' then heredocText state.pending more
    else if c = '$' then more.take 1
    else if c = '"' ∨ c = '\'' then enclosed ⟨none, c, c = '"'⟩ cursor.next
    else if c = '\x60' then enclosed ⟨none, c, true⟩ cursor.next
    else if c = ':' then
      match more.head? with
      | some q => if q = '"' ∨ q = '\'' then enclosed ⟨none, q, q = '"'⟩ (cursor.skip 2) else []
      | none => []
    else if c = '/' && operandExpected state then enclosed ⟨none, '/', true⟩ cursor.next
    else if c = '%' && operandExpected state then
      match Percent.read? more with
      | some percent => enclosed percent.marks (cursor.skip percent.opening)
      | none => []
    else []

/-- A line that ends with a sign which means something else in front of a carriage return: a backslash, the slash of a
division by a name, or a percent sign that then opens a literal. -/
def overlooksReturn (state : State) : Bool :=
  let line := state.cursor.rest.takeWhile (· ≠ '\n')
  line ≠ state.cursor.rest &&
    (line = ['\\'] || (line = ['/'] && (state.spaced && state.last.any Lexeme.isIdentifier)) ||
      (operandPossible state && (line = ['%'] || Percent.kinds.any fun kind => line = ['%', kind])))

theorem unargued_of_not_possible (impossible : operandPossible state = false) :
    (state.spaced && state.last.any Lexeme.isIdentifier) = false := by
  unfold operandPossible at impossible
  cases last : state.last with
  | none => exact Bool.and_false _
  | some lexeme =>
    rw [last] at impossible
    rw [Bool.and_comm]
    exact (Bool.or_eq_false_iff.1 impossible).2

section Tokens

variable (front : state.cursor.rest = c :: more) (front' : state'.cursor.rest = c :: crlf more)
  (last : state'.last.map (Lexeme.place nowhere) = state.last.map (Lexeme.place nowhere))
  (spaced : state'.spaced = state.spaced)

include front in
theorem overlooksReturn_of_line (inline : c ≠ '\n') (newline : more.head? = some '\n') : overlooksReturn state =
    (c = '\\' || (c = '/' && (state.spaced && state.last.any Lexeme.isIdentifier)) ||
      (operandPossible state && c = '%')) := by
  obtain ⟨others, rfl⟩ := List.head?_eq_some_iff.1 newline
  have none : (Percent.kinds.any fun _ => false) = false := rfl
  simp [overlooksReturn, front, inline, none]

include front in
theorem overlooksReturn_of_kind {kind : Char} (sign : c = '%') (named : kind ∈ Percent.kinds)
    (newline : more.take 2 = [kind, '\n']) : overlooksReturn state = operandPossible state := by
  obtain ⟨others, rfl⟩ : ∃ others, more = kind :: '\n' :: others := by
    rw [← List.take_append_drop 2 more, newline]
    exact ⟨_, rfl⟩
  have inline : kind ≠ '\n' := by
    rintro rfl
    exact absurd named (by decide)
  have known : (Percent.kinds.any fun other => kind = other) = true := List.any_eq_true.2 ⟨kind, named, by simp⟩
  simp [overlooksReturn, front, sign, inline, known]

include front in
theorem unargued_of_line (inline : c ≠ '\n') (seen : overlooksReturn state = false) (sign : c = '/' ∨ c = '%')
    (newline : more.head? = some '\n') : (state.spaced && state.last.any Lexeme.isIdentifier) = false := by
  rw [overlooksReturn_of_line front inline newline] at seen
  obtain ⟨other, impossible⟩ := Bool.or_eq_false_iff.1 seen
  obtain rfl | rfl := sign
  · simpa using other
  · exact unargued_of_not_possible (by simpa using impossible)

include front in
/-- Where an operand can begin, a percent sign opens the same literal in front of either line end. -/
theorem read?_crlf_of_operand (inline : c ≠ '\n') (seen : overlooksReturn state = false) (sign : c = '%')
    (operand : operandExpected state = true) : Percent.read? (crlf more) = Percent.read? more := by
  have possible := operandPossible_of_operandExpected operand
  refine read?_crlf more (fun newline => ?_) fun kind named newline => ?_
  · rw [overlooksReturn_of_line front inline newline, sign, possible] at seen
    simp at seen
  · rw [overlooksReturn_of_kind front sign named newline, possible] at seen
    contradiction

include front front' last spaced in
/-- Blanks are looked for where no carriage return would be, unless the sign could begin an argument. -/
theorem operandExpected_crlf
    (unargued : more.head? = some '\n' → (state.spaced && state.last.any Lexeme.isIdentifier) = false) :
    operandExpected state' = operandExpected state := by
  have same := (Akin.of_unplaced last).operand state.spaced
    (state'.cursor.rest.tail.head?.any fun c => !([' ', '\t', '\n', '='].contains c))
  unfold operandExpected
  rw [spaced]
  refine same.trans ?_
  rw [front, front', List.tail_cons, List.tail_cons]
  cases more with
  | nil => rfl
  | cons d others =>
    by_cases newline : d = '\n'
    · subst newline
      have unargued := unargued rfl
      cases before : state.last with
      | none => rfl
      | some lexeme =>
        rw [before] at unargued
        have blank : (lexeme.isIdentifier && state.spaced) = false := by
          rw [Bool.and_comm]
          exact unargued
        dsimp only
        rw [blank, Bool.false_and, Bool.false_and]
    · rw [crlf_cons newline]
      rfl

include front front' last spaced in
theorem heredoc?_crlf :
    heredoc? state' = (heredoc? state).map fun (opener, behind) => (opener, crlf behind) := by
  unfold heredoc?
  rw [front, front', readOpener_crlf]
  by_cases newline : more.head? = some '\n'
  · have none : Heredoc.readOpener (c :: more) = Option.none := by
      obtain ⟨others, rfl⟩ := List.head?_eq_some_iff.1 newline
      cases found : Heredoc.readOpener (c :: '\n' :: others) with
      | none => rfl
      | some found =>
        obtain ⟨behind, eq, -⟩ := readOpener_behind found
        obtain ⟨-, eq⟩ := List.cons.inj eq
        exact absurd (List.cons.inj eq).1 (by decide)
    rw [none, Option.map_none, ite_self, ite_self]
    rfl
  · rw [operandExpected_crlf front front' last spaced fun line => absurd line newline]
    split
    · rfl
    · rfl

variable (readers : Mutual bound code code') (plain : '\r' ∉ more) (short : state.cursor.rest.length ≤ bound)
  (unbroken : '\n' ∉ held state) (seen : overlooksReturn state = false)

include front front' last spaced seen unbroken in
theorem slash_crlf (sign : c = '/') : Both SameToken (plainToken code state c) (plainToken code' state' c) := by
  subst sign
  have inline : '/' ≠ '\n' := by decide
  have expected := operandExpected_crlf front front' last spaced (unargued_of_line front inline seen (.inl rfl))
  rw [plainToken_slash, plainToken_slash, expected, front, front']
  split
  · rename_i operand
    have behind : state'.cursor.next.rest = crlf state.cursor.next.rest := by
      rw [rest_next, rest_next, front, front', List.tail_cons, List.tail_cons]
    refine regexp_crlf behind (inline_of_closer (by decide) _) ?_
    have holds : held state = enclosed ⟨none, '/', true⟩ state.cursor.next := by simp [held, front, operand]
    rwa [← holds]
  · exact both_of_map (sign_crlf '/' more)

include front front' last spaced readers plain short seen unbroken in
theorem percent_crlf (sign : c = '%') : Both SameToken (plainToken code state c) (plainToken code' state' c) := by
  subst sign
  have inline : '%' ≠ '\n' := by decide
  have expected := operandExpected_crlf front front' last spaced (unargued_of_line front inline seen (.inr rfl))
  rw [plainToken_percent, plainToken_percent, expected, front, front', List.tail_cons, List.tail_cons]
  split
  · rename_i operand
    rw [read?_crlf_of_operand front inline seen rfl operand]
    cases opening : Percent.read? more with
    | none => exact both_of_map (sign_crlf '%' more)
    | some percent =>
      obtain ⟨inlineMarks, inlineOpening⟩ := inline_of_read? plain opening
      have behind : (state'.cursor.skip percent.opening).rest = crlf (state.cursor.skip percent.opening).rest := by
        rw [rest_skip, rest_skip, front, front', ← crlf_cons inline, drop_crlf inlineOpening]
      have within : (state.cursor.skip percent.opening).rest.length ≤ bound := by
        rw [rest_skip, List.length_drop]
        omega
      have holds : held state = enclosed percent.marks (state.cursor.skip percent.opening) := by
        simp [held, front, operand, opening]
      exact percentLiteral_crlf behind inlineMarks readers within (holds ▸ unbroken)
  · exact both_of_map (sign_crlf '%' more)

include front front' last spaced readers plain short unbroken seen in
/-- A token that holds no newline is read alike in front of either line end. -/
theorem plainToken_crlf : Both SameToken (plainToken code state c) (plainToken code' state' c) := by
  have behind : state'.cursor.next.rest = crlf state.cursor.next.rest := by
    rw [rest_next, rest_next, front, front', List.tail_cons, List.tail_cons]
  have within : state.cursor.next.rest.length ≤ bound := by
    rw [rest_next, List.length_tail]
    omega
  cases lead c with
  | digit digit =>
    rw [plainToken_digit digit, plainToken_digit digit, front, front']
    exact sameToken_of_eq (number_crlf digit more)
  | letter digit letter =>
    rw [plainToken_letter digit letter, plainToken_letter digit letter, front, front', (Akin.of_unplaced last).word]
    exact sameToken_of_eq (word_crlf (isNameChar_of_letter letter) state.last more)
  | sigil =>
    rw [plainToken_sigil, plainToken_sigil, front, front', List.tail_cons, List.tail_cons]
    exact both_of_map (instanceName_crlf more)
  | dollar =>
    rw [plainToken_dollar, plainToken_dollar, front, front', List.tail_cons, List.tail_cons]
    refine both_of_map (globalName_crlf more fun line => ?_)
    obtain ⟨others, rfl⟩ := List.head?_eq_some_iff.1 line
    refine unbroken ?_
    simp [held, front]
  | quote quote =>
    have closer : ¬Ends c := by obtain rfl | rfl := quote <;> decide
    have holds : held state = enclosed ⟨none, c, c = '"'⟩ state.cursor.next := by
      obtain rfl | rfl := quote <;> simp [held, front]
    rw [plainToken_quote quote, plainToken_quote quote]
    exact delimited_crlf behind (inline_of_closer closer _) readers within (fun _ => rfl) (holds ▸ unbroken)
  | back =>
    have holds : held state = enclosed ⟨none, '\x60', true⟩ state.cursor.next := by simp [held, front]
    exact delimited_crlf behind (inline_of_closer (by decide) _) readers within (fun _ => rfl) (holds ▸ unbroken)
  | colon =>
    refine afterColon_crlf front front' readers short fun q next quotes => ?_
    have holds : held state = enclosed ⟨none, q, q = '"'⟩ (state.cursor.skip 2) := by
      simp [held, front, Option.mem_def.1 next, quotes]
    exact holds ▸ unbroken
  | slash => exact slash_crlf front front' last spaced unbroken seen rfl
  | percent => exact percent_crlf front front' last spaced readers plain short unbroken seen rfl
  | sign other =>
    rw [plainToken_sign other, plainToken_sign other, front, front']
    exact both_of_map (sign_crlf c more)

end Tokens

end Formulary.LineEnd
