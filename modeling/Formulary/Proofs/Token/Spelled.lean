import Formulary.Proofs.Token.Step

/-! What a token takes off the text spells it. -/

namespace Formulary

open Gap (startsWith)

namespace Lexeme

variable {τ : Type}

/-- Whether a text spells a lexeme. The text of a string, of a quoted symbol and of a list of words may say the same
in many ways, so that only its opening is looked at. -/
def Spelled : Lexeme τ → List Char → Prop
  | integer digits, text | float digits, text =>
    Spelling.beginsWithDigit text ∧ Spelling.withoutUnderscores text = digits
  | string _, text => ["\"", "'", "%", "<<"].any (startsWith text)
  | shell _, text => startsWith text "\x60"
  | words _, text => ["%w", "%W"].any (startsWith text)
  | symbols _, text => ["%i", "%I"].any (startsWith text)
  | symbol name, text => text = ':' :: name.toList ∨ [":\"", ":'"].any (startsWith text)
  | regexp body flags, text =>
    text = '/' :: body.toList ++ '/' :: flags.toList ∨
      ∃ delimiter, text = '%' :: 'r' :: delimiter :: body.toList ++ (Percent.closingOf delimiter).2 :: flags.toList
  | label name, text => text = name.toList ++ [':']
  | identifier name, text | constant name, text | instanceVar name, text | globalVar name, text
  | keyword name, text | operator name, text => text = name.toList
  | arrow, text => text = "=>".toList
  | opening bracket, text => text = (openingSign bracket).toList
  | closing bracket, text => text = (closingSign bracket).toList
  | comma, text => text = [',']
  | dot, text => text = ['.']
  | safeDot, text => text = "&.".toList
  | doubleColon, text => text = "::".toList
  | question, text => text = ['?']
  | colon, text => text = [':']
  | semicolon, text => text = [';']
  | newline, text => text = ['\n']
  | endOfText, text => text = []

end Lexeme

namespace Scan

open Body Result Seam Spelling

/-- A lexeme is spelled by what stands before the rest of a text. -/
def Takes (lexeme : Lexeme Token) (text after : List Char) : Prop :=
  ∃ spelling, spelling ++ after = text ∧ lexeme.Spelled spelling

variable {code : Reader} {cursor : Cursor} {state : State} {found : Found} {lexeme : Lexeme Token} {c : Char}
  {text more after : List Char}

theorem startsWith_iff {word : String} : startsWith text word = true ↔ ∃ rest, text = word.toList ++ rest := by
  rw [startsWith, List.isPrefixOf_iff_prefix]
  exact exists_congr fun rest => eq_comm

/-! Spellings -/

theorem append_begins {front next : List Char} (begins : front <+: text) (continues : next <+: text.drop front.length) :
    front ++ next <+: text := by
  obtain ⟨rest, rfl⟩ := begins
  rw [List.drop_left] at continues
  exact (List.prefix_append_right_inj front).2 continues

theorem takes_decimalNumber (digit : Text.isDigit c = true) :
    Takes (decimalNumber (c :: more)).1 (c :: more) (decimalNumber (c :: more)).2 := by
  have whole := List.takeWhile_prefix (l := c :: more) isDigitChar
  have fraction := fractionPart_begins ((c :: more).drop ((c :: more).takeWhile isDigitChar).length)
  have power := powerPart_begins ((c :: more).drop (((c :: more).takeWhile isDigitChar).length +
    (fractionPart ((c :: more).drop ((c :: more).takeWhile isDigitChar).length)).length))
  rw [← List.length_append] at power
  have spelling := append_begins (append_begins whole fraction) power
  have first : ((c :: more).takeWhile isDigitChar).head? = some c := by
    rw [List.takeWhile_cons, if_pos (by simp [isDigitChar, digit]), List.head?_cons]
  unfold decimalNumber
  rw [List.length_append] at spelling
  refine ⟨_, List.prefix_iff_eq_append.1 spelling, ?_⟩
  dsimp only
  split <;> exact ⟨by simp [beginsWithDigit, List.head?_append, first, digit], rfl⟩

theorem takes_number (digit : Text.isDigit c = true) :
    Takes (number (c :: more)).1 (c :: more) (number (c :: more)).2 := by
  unfold number
  split
  · rename_i mark rest eq
    obtain ⟨rfl, rfl⟩ := List.cons.inj eq
    split
    · refine ⟨'0' :: mark :: rest.takeWhile isNameChar, ?_, digit, rfl⟩
      rw [List.cons_append, List.cons_append, List.takeWhile_append_dropWhile]
    · exact takes_decimalNumber digit
  · exact takes_decimalNumber digit

theorem takes_word (last : Option (Lexeme Token)) (text : List Char) :
    Takes (word last text).1 text (word last text).2 := by
  have split := List.take_append_drop (wordLength text) text
  unfold word
  dsimp only
  split
  · rename_i colon
    obtain ⟨rest, behind⟩ := List.head?_eq_some_iff.1 colon.1
    refine ⟨_, ?_, rfl⟩
    rw [String.toList_ofList, behind, List.append_assoc, List.tail_cons, List.singleton_append, ← behind]
    exact split
  split
  · exact ⟨_, split, String.toList_ofList.symm⟩
  split
  · exact ⟨_, split, String.toList_ofList.symm⟩
  · exact ⟨_, split, String.toList_ofList.symm⟩

theorem takes_instanceName (h : instanceName more = some (lexeme, after)) : Takes lexeme ('@' :: more) after := by
  unfold instanceName at h
  split at h
  rename_i sigil behind read
  dsimp only at h
  split at h
  · contradiction
  · obtain ⟨rfl, rfl⟩ := Prod.mk.inj (Option.some.inj h)
    have name := List.takeWhile_append_dropWhile (p := isNameChar) (l := behind)
    refine ⟨_, ?_, rfl⟩
    rw [String.toList_append, String.toList_ofList, List.append_assoc, name]
    split at read <;>
    · obtain ⟨rfl, rfl⟩ := Prod.mk.inj read
      rfl

theorem takes_globalName (h : globalName more = some (lexeme, after)) : Takes lexeme ('$' :: more) after := by
  unfold globalName at h
  dsimp only at h
  split at h
  · obtain ⟨c, single, eq⟩ := Option.map_eq_some_iff.1 h
    obtain ⟨rfl, rfl⟩ := Prod.mk.inj eq
    obtain ⟨rest, rfl⟩ := List.head?_eq_some_iff.1 single
    exact ⟨_, by simp, rfl⟩
  · obtain ⟨rfl, rfl⟩ := Prod.mk.inj (Option.some.inj h)
    refine ⟨_, ?_, rfl⟩
    have name := List.takeWhile_append_dropWhile (p := isNameChar) (l := more)
    rw [String.toList_append, List.append_assoc, @String.toList_ofList (more.takeWhile isNameChar), name]
    rfl

theorem takes_word_of_startsWith {word : String} (starts : startsWith text word = true)
    (spelled : lexeme.Spelled word.toList) : Takes lexeme text (text.drop word.toList.length) := by
  obtain ⟨rest, rfl⟩ := startsWith_iff.1 starts
  exact ⟨word.toList, by rw [List.drop_left], spelled⟩

theorem spelled_punctuation (h : punctuation? c = some lexeme) : lexeme.Spelled [c] := by
  unfold punctuation? at h
  split at h <;> first | contradiction | exact Option.some.inj h ▸ rfl

theorem takes_sign (h : sign text = some (lexeme, after)) : Takes lexeme text after := by
  unfold sign at h
  split at h
  · rename_i starts
    obtain ⟨rfl, rfl⟩ := Prod.mk.inj (Option.some.inj h)
    exact takes_word_of_startsWith starts rfl
  split at h
  · rename_i starts
    obtain ⟨rfl, rfl⟩ := Prod.mk.inj (Option.some.inj h)
    exact takes_word_of_startsWith (Bool.and_eq_true_iff.1 starts).1 rfl
  split at h
  · rename_i op found
    obtain ⟨rfl, rfl⟩ := Prod.mk.inj (Option.some.inj h)
    exact takes_word_of_startsWith (List.find?_some found) rfl
  · obtain ⟨c, front, punctuated⟩ := Option.bind_eq_some_iff.1 h
    obtain ⟨found, hfound, eq⟩ := Option.map_eq_some_iff.1 punctuated
    obtain ⟨rfl, rfl⟩ := Prod.mk.inj eq
    obtain ⟨rest, rfl⟩ := List.head?_eq_some_iff.1 front
    exact ⟨[c], rfl, spelled_punctuation hfound⟩

/-! Literals -/

theorem takes_quotedSymbol {quote : Char} {start : Position} (either : quote = '"' ∨ quote = '\'')
    (front : cursor.rest = more) (h : quotedSymbol code quote start cursor = .ok (lexeme, after)) :
    Takes lexeme (':' :: quote :: more) after := by
  obtain ⟨segments, name, hliteral, -, rfl⟩ := quotedSymbol_eq_ok_iff.1 h
  obtain ⟨body, rfl⟩ := front ▸ literal_suffix hliteral
  refine ⟨':' :: quote :: body, rfl, .inr ?_⟩
  obtain rfl | rfl := either <;> rfl

theorem takes_afterColon (front : cursor.rest = ':' :: more) (h : afterColon code cursor = .ok (lexeme, after)) :
    Takes lexeme (':' :: more) after := by
  have skipped : (cursor.skip 2).rest = more.tail := by rw [rest_skip, front, ← List.drop_one]; rfl
  unfold afterColon at h
  rw [front, List.tail_cons] at h
  split at h
  · obtain ⟨rfl, rfl⟩ := Prod.mk.inj (Except.ok.inj h)
    exact ⟨_, rfl, rfl⟩
  · exact takes_quotedSymbol (.inl rfl) skipped h
  · exact takes_quotedSymbol (.inr rfl) skipped h
  · split at h
    · obtain ⟨rfl, rfl⟩ := Prod.mk.inj (Except.ok.inj h)
      refine ⟨_, ?_, .inl rfl⟩
      rw [String.toList_ofList, List.cons_append, List.take_append_drop]
    · obtain ⟨rfl, rfl⟩ := Prod.mk.inj (Except.ok.inj h)
      exact ⟨_, rfl, rfl⟩
  · obtain ⟨rfl, rfl⟩ := Prod.mk.inj (Except.ok.inj h)
    exact ⟨_, rfl, rfl⟩

theorem regexp_takes {marks : Literal.Delimiters} (h : regexp marks cursor = .ok (lexeme, after)) :
    ∃ body flags : String, lexeme = .regexp body flags ∧
      cursor.rest = body.toList ++ marks.closer :: flags.toList ++ after := by
  obtain ⟨body, behind, hread, rfl, rfl⟩ := regexp_eq_ok_iff.1 h
  refine ⟨_, _, rfl, ?_⟩
  rw [String.toList_ofList, String.toList_ofList, List.append_assoc, List.cons_append,
    List.takeWhile_append_dropWhile]
  exact eq_of_readBody hread

theorem percentOf_eq_some {first delimiter : Char} {percent : Percent} (h : percentOf first delimiter = some percent) :
    percent.kind = (if Percent.kinds.contains first then first else 'Q') ∧
      percent.marks.closer = (Percent.closingOf delimiter).2 := by
  unfold percentOf at h
  split at h
  · contradiction
  · exact Option.some.inj h ▸ ⟨rfl, rfl⟩

/-- Only the kind of a percent literal that embeds code may be left out. -/
theorem read?_cases {percent : Percent} (h : Percent.read? text = some percent) :
    ∃ delimiter, percent.marks.closer = (Percent.closingOf delimiter).2 ∧
      (percent.kind = 'Q' ∨ text = percent.kind :: delimiter :: ('%' :: text).drop percent.opening) := by
  cases text with
  | nil => contradiction
  | cons first rest =>
    rw [read?_cons] at h
    split at h
    · rename_i named
      obtain ⟨delimiter, second, h⟩ := Option.bind_eq_some_iff.1 h
      obtain ⟨rest, rfl⟩ := List.head?_eq_some_iff.1 second
      obtain ⟨kind, closer⟩ := percentOf_eq_some h
      rw [if_pos named] at kind
      refine ⟨delimiter, closer, .inr ?_⟩
      rw [opening_percentOf h, if_pos named, kind]
      rfl
    · rename_i bare
      obtain ⟨kind, closer⟩ := percentOf_eq_some h
      rw [if_neg bare] at kind
      exact ⟨first, closer, .inl kind⟩

theorem takes_percentLiteral {percent : Percent} (front : cursor.rest = '%' :: more)
    (read : Percent.read? more = some percent)
    (h : percentLiteral code percent (cursor.skip percent.opening) = .ok (lexeme, after)) :
    Takes lexeme ('%' :: more) after := by
  obtain ⟨delimiter, closer, kind⟩ := read?_cases read
  rw [← front, ← rest_skip] at kind
  have named (other : percent.kind ≠ 'Q') :
      '%' :: more = '%' :: percent.kind :: delimiter :: (cursor.skip percent.opening).rest :=
    congrArg ('%' :: ·) (kind.resolve_left other)
  have listed (other : percent.kind ≠ 'Q') (suffix : after <:+ (cursor.skip percent.opening).rest) :
      ∃ body, '%' :: percent.kind :: body ++ after = '%' :: more := by
    obtain ⟨body, whole⟩ := suffix
    exact ⟨delimiter :: body, by rw [named other, ← whole]; rfl⟩
  cases percentLiteral_eq_ok_iff.1 h with
  | regexp kind h =>
    obtain ⟨body, flags, rfl, whole⟩ := regexp_takes h
    refine ⟨_, ?_, .inr ⟨delimiter, rfl⟩⟩
    rw [named (by rw [kind]; decide), whole, closer, kind]
    rfl
  | words kind hread | symbols kind hread =>
    obtain ⟨body, whole⟩ := listed (by obtain kind | kind := kind <;> rw [kind] <;> decide)
      (readBody_suffix (body_eq_ok_iff.1 hread))
    refine ⟨_, whole, ?_⟩
    obtain kind | kind := kind <;> rw [kind] <;> rfl
  | string _ hliteral =>
    have behind : (cursor.skip percent.opening).rest <:+ more := by
      rw [rest_skip, front]
      exact drop_suffix_tail (Nat.lt_of_lt_of_le Nat.two_pos (two_le_opening read))
    obtain ⟨body, rfl⟩ := (literal_suffix hliteral).trans behind
    exact ⟨'%' :: body, rfl, rfl⟩

theorem takes_opener {opener : Heredoc.Opener} (segments : Segments)
    (h : Heredoc.readOpener text = some (opener, after)) : Takes (.string segments) text after := by
  obtain ⟨rest, rfl, body, rfl⟩ := readOpener_behind h
  exact ⟨'<' :: '<' :: body, rfl, rfl⟩

theorem takes_plainToken (front : state.cursor.rest = c :: more)
    (h : plainToken code state c = .ok (lexeme, after)) : Takes lexeme (c :: more) after := by
  have next : state.cursor.next.rest = more := by rw [rest_next, front, List.tail_cons]
  cases plainToken_cases front h with
  | number digit => exact takes_number digit
  | word => exact takes_word state.last _
  | instanceVar sigil h => exact sigil ▸ takes_instanceName h
  | globalVar dollar h => exact dollar ▸ takes_globalName h
  | string quote h =>
    obtain ⟨body, rfl⟩ := next ▸ literal_suffix h
    refine ⟨c :: body, rfl, ?_⟩
    obtain rfl | rfl := quote <;> rfl
  | shell quote h =>
    obtain ⟨body, rfl⟩ := next ▸ literal_suffix h
    exact ⟨c :: body, rfl, quote ▸ rfl⟩
  | colon colon hcolon =>
    subst colon
    exact takes_afterColon front hcolon
  | regexp slash h =>
    obtain ⟨body, flags, rfl, whole⟩ := regexp_takes h
    exact ⟨_, by rw [← next, whole, slash]; rfl, .inl rfl⟩
  | percent sign read hpercent =>
    subst sign
    exact takes_percentLiteral front read hpercent
  | sign h => exact takes_sign h

end Scan

end Formulary
