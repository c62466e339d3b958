import Formulary.Proofs.Token.LiteralText

/-!
Every text can be written as a literal. The end of a literal and the escapes in it are looked for one after the other,
so a text reads back as itself if both passes take the same characters for escapes.
-/

namespace Formulary

def singleQuoted (text : List Char) : List Char :=
  '\'' :: escapeChars ['\\', '\''] text ++ ['\'']

def doubleQuoted (text : List Char) : List Char :=
  '"' :: escapeChars ['\\', '"', '#'] text ++ ['"']

/-- A text between the delimiters of a percent literal. -/
def percentQuoted (kind opener closer : Char) (text : List Char) : List Char :=
  '%' :: kind :: opener :: text ++ [closer]

/-- The brackets that can stand around a literal, each with the one that closes it. -/
def brackets : List (Char × Char) :=
  [('(', ')'), ('[', ']'), ('\x7b', '\x7d'), ('<', '>')]

/-- A source is one token, wherever it begins. -/
def ReadsAs (source : List Char) (lexeme : Lexeme Token) : Prop :=
  ∀ pos, tokenize source pos = .ok [⟨lexeme, pos, true⟩, ⟨.endOfText, pos.past source, true⟩]

namespace Text

/-- The words of a text are what the blanks part it into, but for the empty parts. -/
theorem words_eq_splitOnP (text : List Char) : words text = (text.splitOnP isBlank).filter (· ≠ []) := by
  fun_induction words text with
  | case1 => rfl
  | case2 c rest blank ih => simp [List.splitOnP_cons_eq_if_modifyHead, blank, ih]
  | case3 c solid => simp [List.splitOnP_cons_eq_if_modifyHead, solid]
  | case4 c solid d rest blank ih => simp [List.splitOnP_cons_eq_if_modifyHead, solid, blank, ih]
  | case5 c solid d rest solid' none ih =>
    obtain ⟨part, parts, parted⟩ := List.exists_cons_of_ne_nil (List.splitOnP_ne_nil isBlank rest)
    simp [List.splitOnP_cons_eq_if_modifyHead, solid', parted, none] at ih
  | case6 c solid d rest solid' word more found ih =>
    obtain ⟨part, parts, parted⟩ := List.exists_cons_of_ne_nil (List.splitOnP_ne_nil isBlank rest)
    obtain ⟨rfl, rfl⟩ : word = d :: part ∧ more = parts.filter (· ≠ []) := by
      simpa [found, List.splitOnP_cons_eq_if_modifyHead, solid', parted] using ih
    simp [found, List.splitOnP_cons_eq_if_modifyHead, solid, solid', parted]

end Text

namespace Scan

open Body Result Seam

variable {code : Reader} {c : Char} {text more : List Char} {pos : Position} {lexeme : Lexeme Token}

/-- A token begins with this character wherever it stands, and no heredoc does. -/
def BeginsToken (c : Char) : Prop :=
  c ≠ '=' ∧ c ≠ '_' ∧ Gap.isSpace c = false ∧ c ≠ '\\' ∧ c ≠ '#' ∧ c ≠ '\n' ∧ c ≠ '<'

instance (c : Char) : Decidable (BeginsToken c) :=
  inferInstanceAs (Decidable (_ ∧ _))

theorem opens_literal (opens : c ∈ ['"', '\'', '%']) : BeginsToken c := by
  simp only [List.mem_cons, List.not_mem_nil, or_false] at opens
  obtain rfl | rfl | rfl := opens <;> decide

/-- A scan that goes on with one token. -/
theorem Scans.of_plainToken {state : State} {after : List Char} {tokens : List Token} {bodies : List Segments}
    (front : state.cursor.rest = c :: more) (begins : BeginsToken c)
    (h : plainToken code state c = .ok (lexeme, after)) (behind : Scans code (state.taken lexeme after) tokens bodies) :
    Scans code state (⟨lexeme, state.cursor.pos, state.spaced⟩ :: tokens) bodies := by
  obtain ⟨equals, line, solid, escape, hash, newline, less⟩ := begins
  have found : token code state c =
      .ok ⟨[⟨lexeme, state.cursor.pos, state.spaced⟩], [], state.taken lexeme after⟩ := by
    rw [token, if_neg less]
    exact congrArg (· >>= _) h
  exact .next (.token front (atCode_of_head front equals line) solid (fun both => escape both.1) hash newline found) behind

theorem scans_end {state : State} (rest : state.cursor.rest = []) (idle : state.pending = []) :
    Scans code state [⟨.endOfText, state.cursor.pos, true⟩] [] :=
  .done (step_eq_none_iff.2 (.inl rest)) idle

theorem tokenize_of_scans {text : List Char} {tokens : List Token}
    (h : Scans (tokensWithin text.length) (.ofText text pos) tokens []) : tokenize text pos = .ok tokens :=
  tokensWithin_eq_ok_iff.2 ⟨tokens, [], h, (plug_nil tokens).symm⟩

/-- A text that is one token. -/
theorem tokenize_of_plainToken (opens : c ∈ ['"', '\'', '%'])
    (h : plainToken (tokensWithin (c :: more).length) (.ofText (c :: more) pos) c = .ok (lexeme, [])) :
    tokenize (c :: more) pos = .ok [⟨lexeme, pos, true⟩, ⟨.endOfText, pos.past (c :: more), true⟩] := by
  have moved : ((Cursor.ofText (c :: more) pos).moveTo []).pos = pos.past (c :: more) := by
    rw [Cursor.moveTo, Cursor.pos_skip_past]
    exact congrArg _ (List.take_length ..)
  have rest : ((Cursor.ofText (c :: more) pos).moveTo []).rest = [] := rest_moveTo List.nil_suffix
  have ends : Scans (tokensWithin (c :: more).length) ((State.ofText (c :: more) pos).taken lexeme []) _ [] :=
    scans_end rest rfl
  rw [← moved]
  exact tokenize_of_scans (.of_plainToken rfl (opens_literal opens) h ends)

/-- A text whose first token cannot be read. -/
theorem tokenize_of_plainToken_error {fault : Malformed} (opens : c ∈ ['"', '\'', '%'])
    (h : plainToken (tokensWithin (c :: more).length) (.ofText (c :: more) pos) c = .error fault) :
    tokenize (c :: more) pos = .error fault := by
  obtain ⟨equals, line, solid, escape, hash, newline, less⟩ := opens_literal opens
  have failed : token (tokensWithin (c :: more).length) (.ofText (c :: more) pos) c = .error fault := by
    rw [token, if_neg less]
    exact congrArg (· >>= _) h
  have step : step (tokensWithin (c :: more).length) (.ofText (c :: more) pos) = .error fault := by
    rw [step_of_atCode rfl (atCode_of_head rfl equals line), solid, if_neg (by decide), if_neg fun both => escape both.1,
      if_neg hash, if_neg newline, failed]
    rfl
  have stops : run (tokensWithin (c :: more).length) ((c :: more).length + 1) (.ofText (c :: more) pos) =
      .error fault := by
    rw [run, step]
    rfl
  exact congrArg (· >>= _) stops

theorem readsAs_of_plainToken (opens : c ∈ ['"', '\'', '%'])
    (h : ∀ code pos, plainToken code (.ofText (c :: more) pos) c = .ok (lexeme, [])) : ReadsAs (c :: more) lexeme :=
  fun pos => tokenize_of_plainToken opens (h _ pos)

/-- A literal whose body stands for a text. -/
theorem literal_eq_ok (code : Reader) (marks : Literal.Delimiters) (cursor : Cursor) {body after : List Char}
    (ends : Literal.readBody marks 0 0 cursor.pos cursor.rest = .ok (body, after))
    (split : Literal.splitBody code marks.embeds (some marks.closer) 0 cursor.pos body =
      .ok (text.foldr Literal.consText [])) :
    literal code marks cursor = .ok ([.text (String.ofList text)], after) :=
  literal_eq_ok_iff.2 ⟨body, ends, Literal.segments_of_splitBody split⟩

theorem readsAs_singleQuoted (text : List Char) :
    ReadsAs (singleQuoted text) (.string [.text (String.ofList text)]) := by
  refine readsAs_of_plainToken (by decide) fun code pos => ?_
  have read := literal_eq_ok code ⟨none, '\'', false⟩ (Cursor.ofText (singleQuoted text) pos).next
    (Literal.readBody_escapeChars ['\\', '\''] rfl (by decide) (by decide) (by decide) nofun)
    (Literal.splitBody_escapeChars (by simp [Literal.unescape]) (by decide) nofun)
  exact congrArg (· >>= _) read

theorem readsAs_doubleQuoted (text : List Char) :
    ReadsAs (doubleQuoted text) (.string [.text (String.ofList text)]) := by
  refine readsAs_of_plainToken (by decide) fun code pos => ?_
  have read := literal_eq_ok code ⟨none, '"', true⟩ (Cursor.ofText (doubleQuoted text) pos).next
    (Literal.readBody_escapeChars ['\\', '"', '#'] rfl (by decide) (by decide) (by decide) fun _ => by decide)
    (Literal.splitBody_escapeChars (by simp [Literal.unescape, Literal.escaped]) (by decide) fun _ => by decide)
  exact congrArg (· >>= _) read

section Percent

variable {kind opener closer : Char}

theorem brackets_delimit : ∀ pair ∈ brackets, pair.1 ≠ pair.2 ∧ pair.2 ≠ '\\' ∧ pair.2 ≠ '#' ∧
    Percent.closingOf pair.1 = (some pair.1, pair.2) ∧
    (Text.isAlphanumeric pair.1 || [' ', '\t', '\n', '='].contains pair.1) = false := by
  decide

theorem readBody_percentQuoted (pos : Position) (among : (opener, closer) ∈ brackets) (balanced : Balanced opener closer text)
    (backslash : '\\' ∉ text) :
    Literal.readBody ⟨some opener, closer, false⟩ 0 0 pos (text ++ [closer]) = .ok (text, []) := by
  obtain ⟨distinct, escape, hash, -, -⟩ := brackets_delimit _ among
  have ends : Literal.readBody ⟨some opener, closer, false⟩ 0 0 (pos.past text) [closer] = .ok ([], []) :=
    Literal.readBody_closer escape hash (by simpa using distinct)
  rw [Literal.readBody_balanced distinct balanced backslash, ends]
  simp [Except.map]

theorem read?_percentQuoted (among : (opener, closer) ∈ brackets) (either : kind = 'q' ∨ kind = 'w') :
    Percent.read? (kind :: opener :: text ++ [closer]) = some ⟨kind, 3, ⟨some opener, closer, false⟩⟩ := by
  obtain ⟨-, -, -, closing, delimits⟩ := brackets_delimit _ among
  have named : Percent.kinds.contains kind = true ∧ Percent.embedsCode kind = false := by
    obtain rfl | rfl := either <;> decide
  have second : (opener :: text ++ [closer]).head? = some opener := rfl
  dsimp only at closing delimits
  rw [List.cons_append, read?_cons, if_pos named.1, second, Option.bind_some, percentOf, delimits, closing, named.1]
  simp [named.2]

/-- A percent literal without code, in brackets. -/
theorem plainToken_percentQuoted (among : (opener, closer) ∈ brackets) (either : kind = 'q' ∨ kind = 'w') :
    plainToken code (.ofText (percentQuoted kind opener closer text) pos) '%' =
      percentLiteral code ⟨kind, 3, ⟨some opener, closer, false⟩⟩
        ((Cursor.ofText (percentQuoted kind opener closer text) pos).skip 3) := by
  have expected : operandExpected (.ofText (percentQuoted kind opener closer text) pos) = true := rfl
  have read : Percent.read? (State.ofText (percentQuoted kind opener closer text) pos).cursor.rest.tail = _ :=
    read?_percentQuoted among either
  rw [plainToken_percent, if_pos expected, read]

theorem readsAs_percentQuoted (among : (opener, closer) ∈ brackets) (balanced : Balanced opener closer text)
    (backslash : '\\' ∉ text) : ReadsAs (percentQuoted 'q' opener closer text) (.string [.text (String.ofList text)]) := by
  refine readsAs_of_plainToken (by decide) fun code pos => ?_
  let cursor := (Cursor.ofText (percentQuoted 'q' opener closer text) pos).skip 3
  have read := literal_eq_ok code ⟨some opener, closer, false⟩ cursor
    (readBody_percentQuoted cursor.pos among balanced backslash) (Literal.splitBody_plain backslash nofun)
  exact (plainToken_percentQuoted among (.inl rfl)).trans (congrArg (· >>= _) read)

theorem readsAs_percentWords (among : (opener, closer) ∈ brackets) (balanced : Balanced opener closer text)
    (backslash : '\\' ∉ text) : ReadsAs (percentQuoted 'w' opener closer text) (.words (wordList text)) := by
  refine readsAs_of_plainToken (by decide) fun code pos => ?_
  have ends := readBody_percentQuoted ((Cursor.ofText (percentQuoted 'w' opener closer text) pos).skip 3).pos among
    balanced backslash
  exact (plainToken_percentQuoted among (.inr rfl)).trans (congrArg (· >>= _) (body_eq_ok_iff.2 ends))

end Percent

end Scan

/-- Every text can be written between quotes, and one without backslashes whose brackets are balanced between such
brackets. -/
theorem readsAs_quoted (text : List Char) :
    ReadsAs (singleQuoted text) (.string [.text (String.ofList text)]) ∧
    ReadsAs (doubleQuoted text) (.string [.text (String.ofList text)]) ∧
    ('\\' ∉ text → ∀ opener closer, (opener, closer) ∈ brackets → Balanced opener closer text →
      ReadsAs (percentQuoted 'q' opener closer text) (.string [.text (String.ofList text)]) ∧
      ReadsAs (percentQuoted 'w' opener closer text)
        (.words (((text.splitOnP Text.isBlank).filter (· ≠ [])).map String.ofList))) := by
  refine ⟨Scan.readsAs_singleQuoted text, Scan.readsAs_doubleQuoted text, ?_⟩
  intro backslash opener closer among balanced
  refine ⟨Scan.readsAs_percentQuoted among balanced backslash, ?_⟩
  rw [← Text.words_eq_splitOnP]
  exact Scan.readsAs_percentWords among balanced backslash

/-- Quotes, signs of code and brackets of another kind stand for themselves between brackets. -/
theorem readsAs_quoted_words :
    '\\' ∉ ['(', 'a', ')', '\n', '#', '\x7b', '[', ' ', '(', '"', '(', ')', ')'] ∧
      Balanced '(' ')' ['(', 'a', ')', '\n', '#', '\x7b', '[', ' ', '(', '"', '(', ')', ')'] ∧
      ReadsAs (percentQuoted 'w' '(' ')' ['(', 'a', ')', '\n', '#', '\x7b', '[', ' ', '(', '"', '(', ')', ')'])
        (.words ["(a)", "#\x7b[", "(\"())"]) := by
  have backslash : '\\' ∉ ['(', 'a', ')', '\n', '#', '\x7b', '[', ' ', '(', '"', '(', ')', ')'] := by decide
  have nested (inner : List Char) {more : List Char} := @Balanced.nested '(' ')' inner more
  have balanced : Balanced '(' ')' ['(', 'a', ')', '\n', '#', '\x7b', '[', ' ', '(', '"', '(', ')', ')'] := by
    refine nested ['a'] (.plain (by decide) (by decide) .nil) ?_
    iterate 5 refine .plain (by decide) (by decide) ?_
    refine nested ['"', '(', ')'] (.plain (by decide) (by decide) ?_) .nil
    exact nested [] .nil .nil
  exact ⟨backslash, balanced, ((readsAs_quoted _).2.2 backslash '(' ')' (by decide) balanced).2⟩

end Formulary
