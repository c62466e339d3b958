import Formulary.Proofs.Token.Body
import Formulary.Token.Scan

/-! Every step of the scan leaves a proper suffix of the text. -/

namespace Formulary.Scan

open Body Gap Result Seam Spelling

/-! Cursors -/

theorem rest_next (cursor : Cursor) : cursor.next.rest = cursor.rest.tail := by
  obtain ⟨rest, pos, fresh⟩ := cursor
  cases rest <;> rfl

theorem rest_skip (n : Nat) (cursor : Cursor) : (cursor.skip n).rest = cursor.rest.drop n := by
  induction n generalizing cursor with
  | zero => rfl
  | succ n ih => rw [Cursor.skip, ih, rest_next, List.drop_tail]

theorem rest_moveTo {cursor : Cursor} {rest : List Char} (h : rest <:+ cursor.rest) :
    (cursor.moveTo rest).rest = rest := by
  rw [Cursor.moveTo, rest_skip]
  exact (List.suffix_iff_eq_drop.1 h).symm

/-! Spellings -/

variable {c : Char} {more : List Char}

theorem drop_suffix_tail {n : Nat} (h : 0 < n) : (c :: more).drop n <:+ more := by
  obtain ⟨n, rfl⟩ := Nat.exists_eq_succ_of_ne_zero (Nat.pos_iff_ne_zero.1 h)
  exact List.drop_suffix n more

theorem decimalNumber_suffix (digit : isDigitChar c = true) : (decimalNumber (c :: more)).2 <:+ more := by
  unfold decimalNumber
  refine drop_suffix_tail ?_
  simp only [List.takeWhile_cons, digit, if_true, List.length_append, List.length_cons]
  omega

theorem number_suffix (digit : Text.isDigit c = true) : (number (c :: more)).2 <:+ more := by
  have decimal : (decimalNumber (c :: more)).2 <:+ more := decimalNumber_suffix (by simp [isDigitChar, digit])
  unfold number
  split
  · rename_i mark behind eq
    obtain ⟨-, rfl⟩ := List.cons.inj eq
    split
    · exact (List.dropWhile_suffix _).trans (List.suffix_cons mark behind)
    · exact decimal
  · exact decimal

theorem wordLength_pos (name : isNameChar c = true) : 0 < wordLength (c :: more) := by
  unfold wordLength
  simp only [List.takeWhile_cons, name, if_true, List.length_cons]
  split
  · split <;> omega
  · omega

theorem word_suffix (name : isNameChar c = true) (last : Option (Lexeme Token)) :
    (word last (c :: more)).2 <:+ more := by
  have behind : (c :: more).drop (wordLength (c :: more)) <:+ more := drop_suffix_tail (wordLength_pos name)
  unfold word
  dsimp only
  repeat' split
  all_goals first
    | exact behind
    | exact (List.tail_suffix _).trans behind

theorem sign_suffix {lexeme : Lexeme Token} {after : List Char} (h : sign (c :: more) = some (lexeme, after)) :
    after <:+ more := by
  unfold sign at h
  split at h
  · exact (Prod.mk.inj (Option.some.inj h)).2 ▸ drop_suffix_tail Nat.two_pos
  · split at h
    · exact (Prod.mk.inj (Option.some.inj h)).2 ▸ drop_suffix_tail Nat.two_pos
    · split at h
      · rename_i op found
        have some : 0 < op.length := by
          have lengths : ∀ op ∈ operators, 0 < op.length := by decide
          exact lengths op (List.mem_of_find?_eq_some found)
        exact (Prod.mk.inj (Option.some.inj h)).2 ▸ drop_suffix_tail some
      · obtain ⟨found, -, eq⟩ := Option.map_eq_some_iff.1 h
        exact (Prod.mk.inj eq).2 ▸ List.suffix_refl _

theorem instanceName_suffix {text after : List Char} {lexeme : Lexeme Token}
    (h : instanceName text = some (lexeme, after)) : after <:+ text := by
  unfold instanceName at h
  split at h
  rename_i sigil behind read
  dsimp only at h
  split at h
  · contradiction
  · obtain ⟨-, rfl⟩ := Prod.mk.inj (Option.some.inj h)
    refine (List.dropWhile_suffix _).trans ?_
    split at read
    · exact (Prod.mk.inj read).2 ▸ List.suffix_cons _ _
    · exact (Prod.mk.inj read).2 ▸ List.suffix_refl _

theorem globalName_suffix {text after : List Char} {lexeme : Lexeme Token}
    (h : globalName text = some (lexeme, after)) : after <:+ text.tail := by
  unfold globalName at h
  dsimp only at h
  split at h
  · obtain ⟨_, -, eq⟩ := Option.map_eq_some_iff.1 h
    exact (Prod.mk.inj eq).2 ▸ List.suffix_refl _
  · rename_i some
    obtain ⟨-, rfl⟩ := Prod.mk.inj (Option.some.inj h)
    cases text with
    | nil => exact (some rfl).elim
    | cons c more =>
      cases name : isNameChar c with
      | false => simp [name] at some
      | true =>
        rw [List.dropWhile_cons_of_pos name]
        exact List.dropWhile_suffix _

theorem readMargin_suffix (text : List Char) : (Heredoc.readMargin text).2 <:+ text := by
  unfold Heredoc.readMargin
  split
  · exact List.suffix_cons _ _
  · exact List.suffix_cons _ _
  · exact List.suffix_refl _

theorem readQuote_suffix (text : List Char) : (Heredoc.readQuote text).2 <:+ text := by
  unfold Heredoc.readQuote
  split
  · exact List.suffix_cons _ _
  · exact List.suffix_cons _ _
  · exact List.suffix_refl _

/-- An opener begins with two signs. -/
theorem readOpener_behind {text after : List Char} {opener : Heredoc.Opener}
    (h : Heredoc.readOpener text = some (opener, after)) : ∃ rest, text = '<' :: '<' :: rest ∧ after <:+ rest := by
  unfold Heredoc.readOpener at h
  split at h
  · rename_i rest
    have behind (n : Nat) : (Heredoc.readQuote (Heredoc.readMargin rest).2).2.drop n <:+ rest :=
      (List.drop_suffix _ _).trans ((readQuote_suffix _).trans (readMargin_suffix rest))
    refine ⟨rest, rfl, ?_⟩
    dsimp only at h
    repeat' split at h
    all_goals first
      | contradiction
      | exact (Prod.mk.inj (Option.some.inj h)).2 ▸ behind _
      | exact (Prod.mk.inj (Option.some.inj h)).2 ▸ (List.tail_suffix _).trans (behind _)
  · contradiction

theorem readOpener_suffix {after : List Char} {opener : Heredoc.Opener}
    (h : Heredoc.readOpener (c :: more) = some (opener, after)) : after <:+ more := by
  obtain ⟨rest, eq, behind⟩ := readOpener_behind h
  obtain ⟨-, rfl⟩ := List.cons.inj eq
  exact behind.trans (List.suffix_cons _ _)

theorem closedBy_nil {opener : Heredoc.Opener} (named : opener.name.toList ≠ []) : opener.closedBy [] = false := by
  have empty : opener.closedBy [] = decide ([] = opener.name.toList) := by
    unfold Heredoc.Opener.closedBy
    have stripped : Text.strip [] = [] := rfl
    simp [Heredoc.dropTrailing, stripped]
  rw [empty, decide_eq_false_iff_not]
  exact named.symm

/-- The end of a text does not close a heredoc. -/
theorem closedBy_nil_of_readOpener {text after : List Char} {opener : Heredoc.Opener}
    (h : Heredoc.readOpener text = some (opener, after)) : opener.closedBy [] = false := by
  unfold Heredoc.readOpener at h
  split at h
  · rename_i rest
    dsimp only at h
    generalize (if (Heredoc.readQuote (Heredoc.readMargin rest).2).2.head?.any Heredoc.isNameStart then
      (Heredoc.readQuote (Heredoc.readMargin rest).2).2.takeWhile Heredoc.isNamePart else []) = name at h
    refine closedBy_nil ?_
    cases name with
    | nil => contradiction
    | cons first others =>
      dsimp only at h
      repeat' split at h
      all_goals first
        | contradiction
        | obtain ⟨rfl, -⟩ := Prod.mk.inj (Option.some.inj h)
          simp
  · contradiction

/-! Tokens -/

variable {code : Reader} {cursor : Cursor}

theorem body_eq_ok_iff {marks : Literal.Delimiters} {found : List Char × List Char} :
    body marks cursor = .ok found ↔ Literal.readBody marks 0 0 cursor.pos cursor.rest = .ok found := by
  unfold body
  split
  all_goals
    rename_i read
    simp [read]

theorem literal_eq_ok_iff {marks : Literal.Delimiters} {segments : Segments} {after : List Char} :
    literal code marks cursor = .ok (segments, after) ↔
      ∃ text, Literal.readBody marks 0 0 cursor.pos cursor.rest = .ok (text, after) ∧
        Literal.segments code marks.embeds (some marks.closer) cursor.pos text = .ok segments := by
  unfold literal
  simp only [bind_eq_ok_iff, body_eq_ok_iff, pure_eq_ok_iff]
  constructor
  · rintro ⟨⟨text, behind⟩, hread, found, hfound, eq⟩
    obtain ⟨rfl, rfl⟩ := Prod.mk.inj eq
    exact ⟨text, hread, hfound⟩
  · rintro ⟨text, hread, hfound⟩
    exact ⟨(text, after), hread, segments, hfound, rfl⟩

theorem literal_suffix {marks : Literal.Delimiters} {segments : Segments} {after : List Char}
    (h : literal code marks cursor = .ok (segments, after)) : after <:+ cursor.rest := by
  obtain ⟨text, hread, -⟩ := literal_eq_ok_iff.1 h
  exact readBody_suffix hread

theorem quotedSymbol_eq_ok_iff {quote : Char} {start : Position} {lexeme : Lexeme Token} {after : List Char} :
    quotedSymbol code quote start cursor = .ok (lexeme, after) ↔
      ∃ segments name, literal code ⟨none, quote, quote = '"'⟩ cursor = .ok (segments, after) ∧
        plainText? segments = some name ∧ lexeme = .symbol name := by
  unfold quotedSymbol
  rw [bind_eq_ok_iff]
  constructor
  · rintro ⟨⟨segments, behind⟩, hliteral, h⟩
    dsimp only at h
    split at h
    · rename_i name plain
      obtain ⟨rfl, rfl⟩ := Prod.mk.inj (pure_eq_ok_iff.1 h)
      exact ⟨segments, name, hliteral, plain, rfl⟩
    · contradiction
  · rintro ⟨segments, name, hliteral, plain, rfl⟩
    exact ⟨(segments, after), hliteral, by simp only [plain]; rfl⟩

theorem regexp_eq_ok_iff {marks : Literal.Delimiters} {lexeme : Lexeme Token} {after : List Char} :
    regexp marks cursor = .ok (lexeme, after) ↔
      ∃ text behind, Literal.readBody marks 0 0 cursor.pos cursor.rest = .ok (text, behind) ∧
        lexeme = .regexp (String.ofList text) (String.ofList (behind.takeWhile isFlag)) ∧
        after = behind.dropWhile isFlag := by
  unfold regexp
  simp only [bind_eq_ok_iff, body_eq_ok_iff, pure_eq_ok_iff]
  constructor
  · rintro ⟨⟨text, behind⟩, hread, eq⟩
    obtain ⟨rfl, rfl⟩ := Prod.mk.inj eq
    exact ⟨text, behind, hread, rfl, rfl⟩
  · rintro ⟨text, behind, hread, rfl, rfl⟩
    exact ⟨(text, behind), hread, rfl⟩

theorem afterColon_suffix {lexeme : Lexeme Token} {after : List Char}
    (h : afterColon code cursor = .ok (lexeme, after)) : after <:+ cursor.rest.tail := by
  unfold afterColon at h
  split at h
  · rename_i rest eq
    obtain ⟨-, rfl⟩ := Prod.mk.inj (Except.ok.inj h)
    rw [eq]
    exact List.suffix_cons _ _
  · obtain ⟨segments, name, hliteral, -, -⟩ := quotedSymbol_eq_ok_iff.1 h
    refine (literal_suffix hliteral).trans ?_
    rw [rest_skip, ← List.drop_one]
    exact List.drop_suffix_drop_left _ (by omega)
  · obtain ⟨segments, name, hliteral, -, -⟩ := quotedSymbol_eq_ok_iff.1 h
    refine (literal_suffix hliteral).trans ?_
    rw [rest_skip, ← List.drop_one]
    exact List.drop_suffix_drop_left _ (by omega)
  · rename_i eq
    rw [eq]
    split at h
    · exact (Prod.mk.inj (Except.ok.inj h)).2 ▸ List.drop_suffix _ _
    · exact (Prod.mk.inj (Except.ok.inj h)).2 ▸ List.suffix_refl _
  · exact (Prod.mk.inj (Except.ok.inj h)).2 ▸ List.nil_suffix

theorem regexp_suffix {marks : Literal.Delimiters} {lexeme : Lexeme Token} {after : List Char}
    (h : regexp marks cursor = .ok (lexeme, after)) : after <:+ cursor.rest := by
  obtain ⟨text, behind, hread, -, rfl⟩ := regexp_eq_ok_iff.1 h
  exact (List.dropWhile_suffix _).trans (readBody_suffix hread)

/-- How a percent literal is read, by its kind. -/
inductive PercentToken (code : Reader) (percent : Percent) (cursor : Cursor) : Lexeme Token → List Char → Prop
  | regexp {lexeme : Lexeme Token} {after : List Char} : percent.kind = 'r' →
      regexp percent.marks cursor = .ok (lexeme, after) → PercentToken code percent cursor lexeme after
  | words {text after : List Char} : percent.kind = 'w' ∨ percent.kind = 'W' →
      body percent.marks cursor = .ok (text, after) → PercentToken code percent cursor (.words (wordList text)) after
  | symbols {text after : List Char} : percent.kind = 'i' ∨ percent.kind = 'I' →
      body percent.marks cursor = .ok (text, after) → PercentToken code percent cursor (.symbols (wordList text)) after
  | string {segments : Segments} {after : List Char} : percent.kind ∉ ['r', 'w', 'W', 'i', 'I'] →
      literal code percent.marks cursor = .ok (segments, after) →
      PercentToken code percent cursor (.string segments) after

theorem percentLiteral_eq_ok_iff {percent : Percent} {lexeme : Lexeme Token} {after : List Char} :
    percentLiteral code percent cursor = .ok (lexeme, after) ↔ PercentToken code percent cursor lexeme after := by
  unfold percentLiteral
  constructor
  · intro h
    split at h
    · exact .regexp ‹_› h
    split at h
    · obtain ⟨⟨text, behind⟩, hbody, h⟩ := bind_eq_ok_iff.1 h
      obtain ⟨rfl, rfl⟩ := Prod.mk.inj (pure_eq_ok_iff.1 h)
      exact .words ‹_› hbody
    split at h
    · obtain ⟨⟨text, behind⟩, hbody, h⟩ := bind_eq_ok_iff.1 h
      obtain ⟨rfl, rfl⟩ := Prod.mk.inj (pure_eq_ok_iff.1 h)
      exact .symbols ‹_› hbody
    · obtain ⟨⟨segments, behind⟩, hliteral, h⟩ := bind_eq_ok_iff.1 h
      obtain ⟨rfl, rfl⟩ := Prod.mk.inj (pure_eq_ok_iff.1 h)
      exact .string (by simp_all) hliteral
  · intro h
    cases h with
    | regexp kind h => simpa [kind] using h
    | words kind h => obtain kind | kind := kind <;> simp [kind, h]
    | symbols kind h => obtain kind | kind := kind <;> simp [kind, h]
    | string kind h =>
      simp only [List.mem_cons, List.not_mem_nil, or_false, not_or] at kind
      simp [kind, h]

theorem percentLiteral_suffix {percent : Percent} {lexeme : Lexeme Token} {after : List Char}
    (h : percentLiteral code percent cursor = .ok (lexeme, after)) : after <:+ cursor.rest := by
  cases percentLiteral_eq_ok_iff.1 h with
  | regexp _ h => exact regexp_suffix h
  | words _ h | symbols _ h => exact readBody_suffix (body_eq_ok_iff.1 h)
  | string _ h => exact literal_suffix h

theorem opening_percentOf {first delimiter : Char} {percent : Percent} (h : percentOf first delimiter = some percent) :
    percent.opening = if Percent.kinds.contains first then 3 else 2 := by
  unfold percentOf at h
  split at h
  · contradiction
  · exact Option.some.inj h ▸ rfl

theorem two_le_opening {text : List Char} {percent : Percent} (h : Percent.read? text = some percent) :
    2 ≤ percent.opening := by
  cases text with
  | nil => contradiction
  | cons first more =>
    rw [read?_cons] at h
    split at h
    · obtain ⟨delimiter, -, h⟩ := Option.bind_eq_some_iff.1 h
      rw [opening_percentOf h]
      split <;> omega
    · rw [opening_percentOf h]
      split <;> omega

theorem isNameChar_of_letter {c : Char} (letter : (Text.isLetter c || c = '_') = true) : isNameChar c = true := by
  unfold isNameChar
  obtain letter | line := Bool.or_eq_true_iff.1 letter
  · unfold Text.isLetter at letter
    unfold Text.isAlphanumeric
    split at letter
    · rename_i ascii
      simp [ascii, Char.isAlphanum, letter]
    · rename_i wide
      simp [wide, letter]
  · simp [line]

theorem elim_eq_ok_iff {found : Option (Lexeme Token × List Char)} {error : Malformed}
    {result : Lexeme Token × List Char} :
    found.elim (Except.error error) Except.ok = Except.ok result ↔ found = some result := by
  cases found <;> simp

/-- How a token that opens no heredoc is read, by its first character. -/
inductive Plain (code : Reader) (state : State) (c : Char) (more : List Char) : Lexeme Token → List Char → Prop
  | number : Text.isDigit c = true → Plain code state c more (number (c :: more)).1 (number (c :: more)).2
  | word : isNameChar c = true →
      Plain code state c more (word state.last (c :: more)).1 (word state.last (c :: more)).2
  | instanceVar {lexeme : Lexeme Token} {after : List Char} : c = '@' → instanceName more = some (lexeme, after) →
      Plain code state c more lexeme after
  | globalVar {lexeme : Lexeme Token} {after : List Char} : c = '$' → globalName more = some (lexeme, after) →
      Plain code state c more lexeme after
  | string {segments : Segments} {after : List Char} : c = '"' ∨ c = '\'' →
      literal code ⟨none, c, c = '"'⟩ state.cursor.next = .ok (segments, after) →
      Plain code state c more (.string segments) after
  | shell {segments : Segments} {after : List Char} : c = '\x60' →
      literal code ⟨none, c, true⟩ state.cursor.next = .ok (segments, after) →
      Plain code state c more (.shell segments) after
  | colon {lexeme : Lexeme Token} {after : List Char} : c = ':' →
      afterColon code state.cursor = .ok (lexeme, after) → Plain code state c more lexeme after
  | regexp {lexeme : Lexeme Token} {after : List Char} : c = '/' →
      regexp ⟨none, '/', true⟩ state.cursor.next = .ok (lexeme, after) → Plain code state c more lexeme after
  | percent {percent : Percent} {lexeme : Lexeme Token} {after : List Char} : c = '%' →
      Percent.read? more = some percent →
      percentLiteral code percent (state.cursor.skip percent.opening) = .ok (lexeme, after) →
      Plain code state c more lexeme after
  | sign {lexeme : Lexeme Token} {after : List Char} : sign (c :: more) = some (lexeme, after) →
      Plain code state c more lexeme after

variable {state : State} {lexeme : Lexeme Token} {after : List Char}

/-! One equation for each character that a token can begin with -/

/-- The characters that begin signs alone. -/
structure IsSign (c : Char) : Prop where
  digit : ¬Text.isDigit c = true
  letter : ¬(Text.isLetter c || c = '_') = true
  special : c ∉ ['@', '$', '"', '\'', '\x60', ':', '/', '%']

/-- What a token begins with. -/
inductive Lead : Char → Prop
  | digit {c : Char} : Text.isDigit c = true → Lead c
  | letter {c : Char} : ¬Text.isDigit c = true → (Text.isLetter c || c = '_') = true → Lead c
  | sigil : Lead '@'
  | dollar : Lead '$'
  | quote {c : Char} : c = '"' ∨ c = '\'' → Lead c
  | back : Lead '\x60'
  | colon : Lead ':'
  | slash : Lead '/'
  | percent : Lead '%'
  | sign {c : Char} : IsSign c → Lead c

theorem lead (c : Char) : Lead c := by
  by_cases special : c ∈ ['@', '$', '"', '\'', '\x60', ':', '/', '%']
  · simp only [List.mem_cons, List.not_mem_nil, or_false] at special
    obtain rfl | rfl | rfl | rfl | rfl | rfl | rfl | rfl := special
    exacts [.sigil, .dollar, .quote (.inl rfl), .quote (.inr rfl), .back, .colon, .slash, .percent]
  by_cases digit : Text.isDigit c = true
  · exact .digit digit
  by_cases letter : (Text.isLetter c || c = '_') = true
  · exact .letter digit letter
  · exact .sign ⟨digit, letter, special⟩

theorem plainToken_digit (digit : Text.isDigit c = true) :
    plainToken code state c = .ok (number state.cursor.rest) := by
  unfold plainToken
  exact if_pos digit

theorem plainToken_letter (digit : ¬Text.isDigit c = true) (letter : (Text.isLetter c || c = '_') = true) :
    plainToken code state c = .ok (word state.last state.cursor.rest) := by
  unfold plainToken
  exact (if_neg digit).trans (if_pos letter)

theorem plainToken_sigil : plainToken code state '@' =
    (instanceName state.cursor.rest.tail).elim (.error ⟨.missingInstanceName, state.cursor.pos⟩) .ok := by
  rfl

theorem plainToken_dollar : plainToken code state '$' =
    (globalName state.cursor.rest.tail).elim (.error ⟨.missingGlobalName, state.cursor.pos⟩) .ok := by
  rfl

theorem plainToken_quote (quote : c = '"' ∨ c = '\'') : plainToken code state c = do
    let (segments, behind) ← literal code ⟨none, c, c = '"'⟩ state.cursor.next
    return (.string segments, behind) := by
  obtain rfl | rfl := quote <;> rfl

theorem plainToken_back : plainToken code state '\x60' = do
    let (segments, behind) ← literal code ⟨none, '\x60', true⟩ state.cursor.next
    return (.shell segments, behind) := by
  rfl

theorem plainToken_colon : plainToken code state ':' = afterColon code state.cursor := by
  rfl

theorem plainToken_slash : plainToken code state '/' =
    if operandExpected state then regexp ⟨none, '/', true⟩ state.cursor.next
    else (sign state.cursor.rest).elim (.error ⟨.unexpectedCharacter '/', state.cursor.pos⟩) .ok := by
  rfl

theorem plainToken_percent : plainToken code state '%' =
    if operandExpected state then
      match Percent.read? state.cursor.rest.tail with
      | some percent => percentLiteral code percent (state.cursor.skip percent.opening)
      | none => (sign state.cursor.rest).elim (.error ⟨.unexpectedCharacter '%', state.cursor.pos⟩) .ok
    else (sign state.cursor.rest).elim (.error ⟨.unexpectedCharacter '%', state.cursor.pos⟩) .ok := by
  rfl

theorem plainToken_sign (other : IsSign c) : plainToken code state c =
    (sign state.cursor.rest).elim (.error ⟨.unexpectedCharacter c, state.cursor.pos⟩) .ok := by
  have special := other.special
  simp only [List.mem_cons, List.not_mem_nil, or_false, not_or] at special
  simp [plainToken, other.digit, other.letter, special]

theorem plainToken_cases (front : state.cursor.rest = c :: more)
    (h : plainToken code state c = .ok (lexeme, after)) : Plain code state c more lexeme after := by
  have tail : state.cursor.rest.tail = more := by rw [front, List.tail_cons]
  cases lead c with
  | digit digit =>
    rw [plainToken_digit digit, front] at h
    have found : number (c :: more) = (lexeme, after) := Except.ok.inj h
    have plain : Plain code state c more (number (c :: more)).1 (number (c :: more)).2 := .number digit
    rwa [found] at plain
  | letter digit letter =>
    rw [plainToken_letter digit letter, front] at h
    have found : word state.last (c :: more) = (lexeme, after) := Except.ok.inj h
    have plain : Plain code state c more (word state.last (c :: more)).1 (word state.last (c :: more)).2 :=
      .word (isNameChar_of_letter letter)
    rwa [found] at plain
  | sigil =>
    rw [plainToken_sigil, tail] at h
    exact .instanceVar rfl (elim_eq_ok_iff.1 h)
  | dollar =>
    rw [plainToken_dollar, tail] at h
    exact .globalVar rfl (elim_eq_ok_iff.1 h)
  | quote quote =>
    rw [plainToken_quote quote] at h
    obtain ⟨⟨segments, behind⟩, hliteral, h⟩ := bind_eq_ok_iff.1 h
    obtain ⟨rfl, rfl⟩ := Prod.mk.inj (pure_eq_ok_iff.1 h)
    exact .string quote hliteral
  | back =>
    rw [plainToken_back] at h
    obtain ⟨⟨segments, behind⟩, hliteral, h⟩ := bind_eq_ok_iff.1 h
    obtain ⟨rfl, rfl⟩ := Prod.mk.inj (pure_eq_ok_iff.1 h)
    exact .shell rfl hliteral
  | colon => exact .colon rfl h
  | slash =>
    rw [plainToken_slash, front] at h
    split at h
    · exact .regexp rfl h
    · exact .sign (elim_eq_ok_iff.1 h)
  | percent =>
    rw [plainToken_percent, tail, front] at h
    split at h
    · split at h
      · exact .percent rfl ‹_› h
      · exact .sign (elim_eq_ok_iff.1 h)
    · exact .sign (elim_eq_ok_iff.1 h)
  | sign other =>
    rw [plainToken_sign other, front] at h
    exact .sign (elim_eq_ok_iff.1 h)

theorem plainToken_suffix (front : state.cursor.rest = c :: more)
    (h : plainToken code state c = .ok (lexeme, after)) : after <:+ more := by
  have next : state.cursor.next.rest = more := by rw [rest_next, front, List.tail_cons]
  cases plainToken_cases front h with
  | number digit => exact number_suffix digit
  | word name => exact word_suffix name state.last
  | instanceVar _ h => exact instanceName_suffix h
  | globalVar _ h => exact (globalName_suffix h).trans (List.tail_suffix more)
  | string _ h => exact next ▸ literal_suffix h
  | shell _ h => exact next ▸ literal_suffix h
  | colon _ h => simpa only [front, List.tail_cons] using afterColon_suffix h
  | regexp _ h => exact next ▸ regexp_suffix h
  | percent _ read h =>
    refine (percentLiteral_suffix h).trans ?_
    rw [rest_skip, front]
    exact drop_suffix_tail (Nat.lt_of_lt_of_le Nat.two_pos (two_le_opening read))
  | sign h => exact sign_suffix h

end Formulary.Scan
