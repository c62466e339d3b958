import Formulary.Proofs.Token.Extension
import Formulary.Proofs.Token.HeredocText
import Formulary.Proofs.Token.Inline
import Formulary.Proofs.Token.Resumption

/-! A line that opens heredocs as the arguments of a command, with their bodies and more program text behind it. -/

namespace Formulary.Heredoc

open Scan

/-- The lines of the body hold neither escapes nor code. -/
def Document.Plain (document : Document) : Prop :=
  ∀ line ∈ document.lines, '\\' ∉ line ∧ ¬['#', '\x7b'] <:+: line

instance (document : Document) : Decidable document.Plain :=
  inferInstanceAs (Decidable (∀ line ∈ document.lines, '\\' ∉ line ∧ ¬['#', '\x7b'] <:+: line))

/-- The string that a heredoc of text alone stands for. -/
def Document.content (document : Document) : Lexeme Token :=
  .string [.text (String.ofList (document.opener.bodyText document.bodyLines))]

/-- An opener with the blanks around it. -/
structure Argument where
  before : List Char
  document : Document
  after : List Char
  blanks : Blanks before ∧ Blanks after

def Argument.text (argument : Argument) : List Char :=
  argument.before ++ argument.document.spelling ++ argument.after

theorem Argument.inline_text (argument : Argument) : '\n' ∉ argument.text := by
  simp [text, argument.blanks.1.line_notMem, argument.blanks.2.line_notMem, argument.document.inline_spelling]

/-! Bodies of text alone -/

/-- Where each piece ends with a newline no code is opened from one to the next. -/
theorem infix_flatten {lines : List (List Char)} (lined : ∀ line ∈ lines, line = [] ∨ line.getLast? = some '\n')
    (plain : ∀ line ∈ lines, ¬['#', '\x7b'] <:+: line) : ¬['#', '\x7b'] <:+: lines.flatten := by
  induction lines with
  | nil => simp
  | cons line more ih =>
    obtain ⟨lined, lined'⟩ := List.forall_mem_cons.1 lined
    obtain ⟨plain, plain'⟩ := List.forall_mem_cons.1 plain
    rw [List.flatten_cons, List.infix_append_iff]
    rintro (within | within | ⟨sign, brace, eq, ends, begins⟩)
    · exact plain within
    · exact ih lined' plain' within
    · cases sign with
      | nil => exact ih lined' plain' (eq ▸ begins.isInfix)
      | cons c sign =>
        obtain ⟨rfl, eq'⟩ := List.cons.inj eq
        obtain ⟨rfl, rfl⟩ | ⟨rfl, rfl⟩ := List.singleton_eq_append_iff.1 eq'
        · obtain ⟨before, rfl⟩ := ends
          simp at lined
        · exact plain ends.isInfix

theorem Document.Plain.bodyText {document : Document} (plain : document.Plain) :
    let text := document.opener.bodyText document.bodyLines
    '\\' ∉ text ∧ ¬['#', '\x7b'] <:+: text := by
  obtain ⟨kept, whole, unindented, -⟩ := bodyText_eq document.opener document.bodyLines
  rw [whole]
  have pieces : ∀ left ∈ kept, ∃ line ∈ document.lines, left <:+ line ++ ['\n'] := by
    intro left among
    obtain ⟨line, among', suffix⟩ := unindented.exists_suffix left among
    obtain ⟨inner, within, rfl⟩ := List.mem_map.1 among'
    exact ⟨inner, within, suffix⟩
  have plain' : ∀ left ∈ kept, ¬['#', '\x7b'] <:+: left := by
    intro left among within
    obtain ⟨line, among, suffix⟩ := pieces left among
    refine (plain line among).2 ?_
    obtain ends | within := List.infix_concat_iff.1 (within.trans suffix.isInfix)
    · obtain ⟨before, eq⟩ := ends
      have last := congrArg List.getLast? eq
      simp at last
    · exact within
  have lined : ∀ left ∈ kept, left = [] ∨ left.getLast? = some '\n' := by
    intro left among
    obtain ⟨line, -, before, eq⟩ := pieces left among
    refine left.eq_nil_or_concat.imp_right ?_
    rintro ⟨front, last, rfl⟩
    have same := congrArg List.getLast? eq
    simpa using same
  refine ⟨fun backslash => ?_, infix_flatten lined plain'⟩
  obtain ⟨left, among, within⟩ := List.mem_flatten.1 backslash
  obtain ⟨line, among, suffix⟩ := pieces left among
  obtain inner | eq := List.mem_append.1 (suffix.subset within)
  · exact (plain line among).1 inner
  · simp at eq

theorem Document.Plain.segments {document : Document} (plain : document.Plain) (code : Body.Reader) (pos : Position) :
    Literal.segments code document.opener.embeds none pos (document.opener.bodyText document.bodyLines) =
      .ok [.text (String.ofList (document.opener.bodyText document.bodyLines))] :=
  Literal.segments_of_splitBody (Literal.splitBody_plain plain.bodyText.1 fun _ => plain.bodyText.2)

end Formulary.Heredoc

namespace Formulary.Scan

open Body Heredoc

variable {code : Reader} {state : State} {rest : List Char} {tokens more : List Token} {filled bodies : List Segments}

variable (code) in
theorem step_comma (front : state.cursor.rest = ',' :: rest) :
    Step code state ⟨[⟨.comma, state.cursor.pos, state.spaced⟩], [], state.taken .comma rest⟩ := by
  have comma : Spelling.sign (',' :: rest) = some (.comma, rest) := by
    simp [Spelling.sign, Gap.startsWith, Spelling.operators, Spelling.punctuation?]
  have plain : plainToken code state ',' = .ok (.comma, rest) := by
    rw [← front] at comma
    simp [plainToken, comma, Text.isDigit, Text.isLetter]
  exact .token front (atCode_of_head front (by decide) (by decide)) (by decide) (by simp) (by decide) (by decide)
    (token_of_plain (fun less => absurd less (by decide)) plain)

theorem operandExpected_eq (state : State) : operandExpected state =
    (!state.last.any Lexeme.endsValue || (state.last.any Lexeme.isIdentifier && state.spaced &&
      (state.cursor.rest.tail.head?.any fun c => !([' ', '\t', '\n', '='].contains c)))) := by
  unfold operandExpected
  cases state.last <;> rfl

theorem isNamePart_of_isSpace {c : Char} (blank : Gap.isSpace c = true) : isNamePart c = false := by
  obtain (rfl | rfl) | rfl : (c = ' ' ∨ c = '\t') ∨ c = '\r' := by simpa [Gap.isSpace] using blank
  all_goals decide

variable (code) in
/-- An opener with blanks around it is read where an operand can stand, and behind a name if a blank stands before it. -/
theorem reaches_argument (argument : Argument) (front : state.cursor.rest = argument.text ++ rest)
    (ends : rest.head?.any isNamePart = false)
    (operand : state.last.any Lexeme.endsValue = false ∨
      state.last.any Lexeme.isIdentifier = true ∧ argument.before ≠ []) :
    ∃ token pos state', Reaches code state [token] [] state' ∧ token.lexeme = .string [] ∧ state'.cursor.rest = rest ∧
      state'.last = some (.string []) ∧ state'.pending = state.pending ++ [(argument.document.opener, pos)] := by
  obtain ⟨before, after⟩ := argument.blanks
  have front' : state.cursor.rest = argument.before ++ (argument.document.spelling ++ (argument.after ++ rest)) := by
    rw [front, Argument.text, List.append_assoc, List.append_assoc]
  have ends' : (argument.after ++ rest).head?.any isNamePart = false := by
    cases spelled : argument.after with
    | nil => exact ends
    | cons c more => exact isNamePart_of_isSpace (after c (spelled ▸ List.mem_cons_self))
  obtain ⟨opening, toOpening, spaced⟩ : ∃ opening, Passes code state opening (argument.document.spelling ++
      (argument.after ++ rest)) ∧ (argument.before ≠ [] → opening.spaced = true) := by
    by_cases none : argument.before = []
    · rw [none] at front'
      exact ⟨state, passes_refl front', fun some => (some none).elim⟩
    · obtain ⟨opening, passes, spaced⟩ := passes_blanks_spaced code before none front'
      exact ⟨opening, passes, fun _ => spaced⟩
  have expected : operandExpected opening = true := by
    have behind : opening.cursor.rest.tail.head? = some '<' := by rw [toOpening.rest]; rfl
    rw [operandExpected_eq, toOpening.last, behind]
    obtain open' | ⟨named, some⟩ := operand
    · rw [open']
      rfl
    · rw [named, spaced some]
      simp
  have opens := @step_opener code _ _ argument.document.toMark toOpening.rest expected ends'
  let opened := { opening.taken (.string []) (argument.after ++ rest) with
    pending := opening.pending ++ [(argument.document.opener, opening.cursor.pos)] }
  have behind : opened.cursor.rest = argument.after ++ rest := rest_moveTo (toOpening.rest ▸ List.suffix_append _ _)
  obtain ⟨state', toRest, -⟩ := passes_blanks code after behind
  refine ⟨_, opening.cursor.pos, state', toOpening.reaches.trans (.next opens toRest.reaches), rfl, toRest.rest, toRest.last, ?_⟩
  exact toRest.pending.trans (congrArg (· ++ _) toOpening.pending)

variable (code) in
/-- Further openers, each behind a comma. -/
theorem reaches_arguments {arguments : List Argument}
    (front : state.cursor.rest = arguments.flatMap (',' :: ·.text) ++ rest) (ends : rest.head?.any isNamePart = false)
    (last : state.last = some (.string [])) :
    ∃ tokens state', Reaches code state tokens [] state' ∧
      tokens.map Token.lexeme = arguments.flatMap (fun _ => [.comma, .string []]) ∧ state'.cursor.rest = rest ∧
      state'.last = some (.string []) ∧
      state'.pending.map Prod.fst = state.pending.map Prod.fst ++ arguments.map (·.document.opener) := by
  induction arguments generalizing state with
  | nil => exact ⟨[], state, .refl state, rfl, front, last, (List.append_nil _).symm⟩
  | cons argument more ih =>
    rw [List.flatMap_cons, List.cons_append, List.cons_append, List.append_assoc] at front
    have ends' : (more.flatMap (',' :: ·.text) ++ rest).head?.any isNamePart = false := by
      cases more with
      | nil => exact ends
      | cons other others => rfl
    have comma := step_comma code front
    have behind : (state.taken .comma (argument.text ++ _)).cursor.rest = _ :=
      rest_moveTo (front ▸ List.suffix_cons ',' _)
    obtain ⟨token, pos, mid, toMid, lexeme, front', last', pending⟩ :=
      reaches_argument code argument behind ends' (.inl rfl)
    obtain ⟨tokens, state', toEnd, lexemes, rest', last'', pending'⟩ := ih front' last'
    refine ⟨_, state', .next comma (toMid.trans toEnd), ?_, rest', last'', ?_⟩
    · simp [lexeme, lexemes]
    · rw [pending', pending]
      simp [State.taken]

variable (code) in
/-- The openers of a line, up to its end. -/
theorem reaches_line {first : Argument} {others : List Argument} {remark below : List Char} (comment : Remark remark)
    (front : state.cursor.rest = first.text ++ (others.flatMap (',' :: ·.text) ++ (remark ++ '\n' :: below)))
    (operand : state.last.any Lexeme.endsValue = false ∨
      state.last.any Lexeme.isIdentifier = true ∧ first.before ≠ []) :
    ∃ tokens state', Reaches code state tokens [] state' ∧
      tokens.map Token.lexeme = .string [] :: others.flatMap (fun _ => [.comma, .string []]) ∧
      state'.cursor.rest = '\n' :: below ∧ state'.last = some (.string []) ∧
      state'.pending.map Prod.fst = state.pending.map Prod.fst ++ (first :: others).map (·.document.opener) := by
  have last : (remark ++ '\n' :: below).head?.any isNamePart = false := by
    obtain rfl | ⟨more, rfl, -⟩ := comment <;> rfl
  have ends : (others.flatMap (',' :: ·.text) ++ (remark ++ '\n' :: below)).head?.any isNamePart = false := by
    cases others with
    | nil => exact last
    | cons argument more => rfl
  obtain ⟨token, pos, opened, toOpened, lexeme, front₁, last₁, pending₁⟩ :=
    reaches_argument code first front ends operand
  obtain ⟨tokens, listed, toListed, lexemes, front₂, last₂, pending₂⟩ :=
    reaches_arguments code front₁ last last₁
  obtain ⟨ended, toEnded, -⟩ := passes_remark code comment front₂ (by simp)
  refine ⟨_, ended, (toOpened.trans toListed).trans toEnded.reaches, ?_, toEnded.rest, toEnded.last.trans last₂, ?_⟩
  · simp [lexeme, lexemes]
  · simp [toEnded.pending, pending₂, pending₁]

/-- The command and the openers that are its arguments, up to the end of their line. -/
theorem reaches_command {line remark : List Char} {front : List Token} {name : Token} {first : Argument} {depth : Nat}
    (introduction : Introduction line front name) (blank : first.before.head?.any isMargin = true)
    (others : List Argument) (comment : Remark remark) (below : List Char) (deep : line.length ≤ depth) :
    ∃ command arguments ended, Reaches (tokensWithin depth) (.ofText (line ++
        (first.text ++ (others.flatMap (',' :: ·.text) ++ (remark ++ '\n' :: below)))) .origin)
        (command ++ arguments) [] ended ∧
      unplaced command = unplaced (front ++ [name]) ∧ command.filter isHollow = [] ∧
      arguments.map Token.lexeme = .string [] :: others.flatMap (fun _ => [.comma, .string []]) ∧
      ended.cursor.rest = '\n' :: below ∧ ended.last = some (.string []) ∧
      ended.pending.map Prod.fst = (first :: others).map (·.document.opener) := by
  have blank' : (first.text ++ (others.flatMap (',' :: ·.text) ++ (remark ++ '\n' :: below))).head?.any isMargin = true := by
    obtain ⟨c, head, margin⟩ := (Option.any_eq_true ..).1 blank
    obtain ⟨more, eq⟩ := List.head?_eq_some_iff.1 head
    rw [Argument.text, eq]
    exact margin
  obtain ⟨command, named, toNamed, same, solid, front, last, idle⟩ := introduction.reaches blank' deep
  have operand : named.last.any Lexeme.endsValue = false ∨
      named.last.any Lexeme.isIdentifier = true ∧ first.before ≠ [] := by
    rw [last.ended, last.named]
    refine introduction.opens.symm.imp_right fun identifier => ⟨identifier, ?_⟩
    rintro none
    rw [none] at blank
    contradiction
  obtain ⟨arguments, ended, toEnded, lexemes, front', last', pending⟩ :=
    reaches_line (tokensWithin depth) comment front operand
  exact ⟨command, arguments, ended, toNamed.trans toEnded, same, solid, lexemes, front', last', by rw [pending, idle]; rfl⟩

/-- The bodies come to the tokens of their openers. -/
theorem plug_arguments {arguments : List Argument} (body : Document → Segments)
    (opened : tokens.map Token.lexeme = arguments.flatMap fun _ => [.comma, .string []]) :
    (plug tokens (arguments.map fun argument => body argument.document)).map Token.lexeme =
        arguments.flatMap (fun argument => [.comma, .string (body argument.document)]) ∧
      (tokens.filter isHollow).length = arguments.length := by
  induction arguments generalizing tokens with
  | nil =>
    obtain rfl := List.map_eq_nil_iff.1 opened
    exact ⟨rfl, rfl⟩
  | cons argument more ih =>
    obtain ⟨comma, behind, rfl, isComma, opened₁⟩ := List.map_eq_cons_iff.1 opened
    obtain ⟨hollow, others, rfl, isHollow, opened₂⟩ := List.map_eq_cons_iff.1 opened₁
    obtain ⟨lexemes, full⟩ := ih opened₂
    obtain ⟨_, pos, spaced⟩ := comma
    obtain ⟨_, pos', spaced'⟩ := hollow
    subst isComma isHollow
    refine ⟨?_, congrArg Nat.succ full⟩
    simpa [plug] using lexemes

theorem plug_line (first : Argument) {others : List Argument} (body : Document → Segments)
    (opened : tokens.map Token.lexeme = .string [] :: others.flatMap fun _ => [.comma, .string []]) :
    (plug tokens ((first :: others).map fun argument => body argument.document)).map Token.lexeme =
        .string (body first.document) :: others.flatMap (fun argument => [.comma, .string (body argument.document)]) ∧
      (tokens.filter isHollow).length = (first :: others).length := by
  obtain ⟨hollow, more, rfl, isHollow, opened'⟩ := List.map_eq_cons_iff.1 opened
  obtain ⟨lexemes, full⟩ := plug_arguments body opened'
  obtain ⟨_, pos, spaced⟩ := hollow
  subst isHollow
  refine ⟨?_, congrArg Nat.succ full⟩
  simpa [plug] using lexemes

end Formulary.Scan

namespace Formulary

open Scan Heredoc

/-- Each body goes to its opener, and behind the bodies the scan goes on as in the text below them alone. -/
theorem tokenize_heredocs {line remark rest : List Char} {front tokens : List Token} {name : Token} {first : Argument}
    {others : List Argument} (introduction : Introduction line front name)
    (blank : first.before.head?.any isMargin = true) (comment : Remark remark)
    (plain : ∀ argument ∈ first :: others, argument.document.Plain) (undotted : Gap.continuesWithDot rest = false)
    (read : tokenize rest .origin = .ok tokens) :
    let documents := (first :: others).map Argument.document
    let source := line ++ first.text ++ others.flatMap (',' :: ·.text) ++ remark ++
      '\n' :: (documents.flatMap Document.text ++ rest)
    ∃ command arguments pos, tokenize source .origin =
        .ok (command ++ arguments ++ ⟨.newline, pos, false⟩ :: lowered (1 + linesTaken documents) tokens) ∧
      unplaced command = unplaced (front ++ [name]) ∧
      arguments.map Token.lexeme = first.document.content :: others.flatMap fun argument =>
        [.comma, argument.document.content] := by
  intro documents source
  let body (document : Document) : Segments := [.text (String.ofList (document.opener.bodyText document.bodyLines))]
  let below := documents.flatMap Document.text ++ rest
  have whole : source = line ++ (first.text ++ (others.flatMap (',' :: ·.text) ++ (remark ++ '\n' :: below))) := by
    simp [source, below]
  generalize depth_eq : source.length = depth
  have deep : line.length ≤ depth := by
    rw [← depth_eq, whole, List.length_append]
    exact Nat.le_add_right ..
  have deep' : rest.length ≤ depth := by
    simp only [← depth_eq, whole, below, List.length_append, List.length_cons]
    omega
  obtain ⟨command, arguments, ended, reached, sameCommand, solid, lexemes, front', last', pending⟩ :=
    reaches_command introduction blank others comment below deep
  rw [← whole] at reached
  have bodies := @step_bodies (tokensWithin depth) _ _ _ body front' (by simp [pending, documents])
    (fun document among pos => by
      obtain ⟨argument, among', rfl⟩ := List.mem_map.1 among
      exact (plain argument among').segments _ pos) undotted (by rw [last']; rfl)
  have inline : '\n' ∉ line ++ first.text ++ others.flatMap (',' :: ·.text) ++ remark := by
    simp [introduction.inline, first.inline_text, Argument.inline_text, comment.line_notMem]
  rw [reached.line_eq_one (front' ▸ rfl) inline, Nat.add_assoc] at bodies
  have bodies_eq : documents.map body = (first :: others).map fun argument => body argument.document := by
    simp [documents]
  obtain ⟨contents, full⟩ := plug_line first body lexemes
  rw [← bodies_eq] at contents
  have argumentsFull : (arguments.filter isHollow).length = (documents.map body).length := by
    rw [full, bodies_eq, List.length_map]
  have plugged (newline : Token) : plug (arguments ++ [newline]) (documents.map body ++ []) =
      plug arguments (documents.map body) ++ plug [newline] [] := plug_append argumentsFull
  have separated := reached.trans (.step bodies)
  rw [List.nil_append, List.append_assoc] at separated
  have resumed := separated.resume rfl (by
    simp [List.filter_append, solid, argumentsFull, isHollow]) deep' read
  refine ⟨command, plug arguments (documents.map body), ended.cursor.pos, ?_, sameCommand, contents⟩
  rw [List.append_nil] at plugged
  rw [tokenize, depth_eq, resumed, plug_of_solid solid, plugged, plug_nil]
  simp

/-- Of two heredocs with one name the first loses its margin. -/
theorem tokenize_heredocs_twins :
    let source := "cmd <<~E,<<'E' # two\n    a\n\n  b\n  E\n c\nE\n\nfoo".toList
    ∃ command arguments pos, tokenize source .origin = .ok (command ++ arguments ++
        [⟨.newline, pos, false⟩, ⟨.identifier "foo", ⟨9, 1⟩, true⟩, ⟨.endOfText, ⟨9, 4⟩, true⟩]) ∧
      unplaced command = unplaced [⟨.identifier "cmd", .origin, true⟩] ∧
      arguments.map Token.lexeme = [.string [.text "  a\n\nb\n"], .comma, .string [.text " c\n"]] := by
  let first : Document :=
    ⟨⟨.trimmed, none, ['E'], .inl rfl, rfl, List.all_eq_true.1 rfl, nofun⟩, ["    a".toList, [], "  b".toList], "  E".toList,
      by decide, by decide⟩
  let second : Document :=
    ⟨⟨.flush, some '\'', ['E'], .inr (.inr rfl), rfl, List.all_eq_true.1 rfl, nofun⟩, [" c".toList], ['E'], by decide, by decide⟩
  have introduction : Introduction "cmd".toList [] ⟨.identifier "cmd", .origin, true⟩ :=
    ⟨by decide, ⟨_, rfl⟩, .inl rfl, [], "cmd".toList, rfl, rfl, rfl⟩
  exact @tokenize_heredocs _ "# two".toList "\nfoo".toList _ _ _ ⟨[' '], first, [], by decide, by decide⟩
    [⟨[], second, [' '], by decide, by decide⟩] introduction rfl (.inr ⟨_, rfl, by decide⟩) (by decide) rfl rfl

end Formulary
