import Formulary.Proofs.Grammar.CodeString
import Formulary.Proofs.Grammar.Program
import Formulary.Proofs.Token.Embedding
import Formulary.Proofs.Token.LinesBelow
import Formulary.Recipe

/-!
Code in a string means what the same code means outside. Below a text whose last statement has ended, the code and the
string of the code are read from the same tokens and in the same scopes, so that they add the same statements.
-/

namespace Formulary

open Grammar Result

/-- The statements of a text, positions aside. -/
def outline (text : List Char) : Option (List Node) :=
  (parseRecipe text).toOption.map fun tree => Recipe.topLevel (tree.place nowhere)

/-- A string of nothing but code. -/
def codeString (statements : List Node) : Node :=
  .string .origin [.code .origin statements]

variable {text code below : List Char} {tokens : List Token} {before found : List Node}

/-! The tokens of a text -/

theorem segments_place (f : Position → Position) (lexeme : Lexeme Token) :
    (lexeme.place f).segments = lexeme.segments.map (placeSegment f) := by
  cases lexeme <;> rfl

theorem Capped.unplaced (h : Capped tokens) : Capped (unplaced tokens) := by
  induction h with
  | intro ends _ ih =>
    obtain ⟨front, last, rfl, final⟩ := ends
    refine .intro ⟨_, _, unplaced_append front [last], ?_⟩ fun token mem code pos within => ?_
    · rw [Token.lexeme_place, final]
      rfl
    · obtain ⟨origin, among, rfl⟩ := List.mem_map.1 mem
      rw [Token.lexeme_place, segments_place] at within
      obtain ⟨segment, inside, same⟩ := List.mem_map.1 within
      cases segment with
      | text value => cases same
      | code inner place =>
        obtain ⟨rfl, -⟩ : placeTokens nowhere inner = code ∧ nowhere place = pos := by simpa [placeSegment] using same
        rw [placeTokens_eq]
        exact ih origin among inner place inside

theorem capped_of_read (read : (tokenize text .origin).toOption.map unplaced = some tokens) : Capped tokens := by
  obtain ⟨placed, read', rfl⟩ := Option.map_eq_some_iff.1 read
  exact (scanned_tokenize (toOption_eq_some_iff.1 read')).capped.unplaced

/-- The statements of a text are read from its tokens. -/
theorem outline_eq_some_iff : outline text = some found ↔ ∃ tokens last,
    (tokenize text .origin).toOption.map unplaced = some tokens ∧
      Sequence (.within tokens .origin [⟨true, []⟩]) found last := by
  have trees : outline text = ((tokenize text .origin).toOption.map unplaced).bind fun tokens =>
      (ofTokens tokens).toOption.map Recipe.topLevel := by
    have split : outline text = ((parseRecipe text).toOption.map (Node.place nowhere)).map Recipe.topLevel := by
      rw [Option.map_map]
      rfl
    rw [split, parseRecipe_unplaced, Option.map_bind]
    rfl
  rw [trees, Option.bind_eq_some_iff]
  refine exists_congr fun tokens => ?_
  rw [exists_and_left]
  refine and_congr_right fun read => ?_
  rw [Option.map_eq_some_iff]
  constructor
  · rintro ⟨tree, read', rfl⟩
    obtain ⟨statements, after, parses, -, rfl⟩ :=
      (ofTokens_eq_ok_iff (capped_of_read read)).1 (toOption_eq_some_iff.1 read')
    exact ⟨after, parses_statements_iff.1 parses⟩
  · rintro ⟨last, sequence⟩
    have parses : Parses (.statements {}) (start tokens) found last := parses_statements_iff.2 sequence
    refine ⟨.program .origin found, toOption_eq_some_iff.2 ?_, rfl⟩
    exact (ofTokens_eq_ok_iff (capped_of_read read)).2 ⟨found, last, parses, sequence.ends, rfl⟩

/-! Below a text -/

theorem endOfText_place_iff {token : Token} :
    (token.place nowhere).lexeme = .endOfText ↔ token.lexeme = .endOfText := by
  rw [Token.lexeme_place]
  cases token.lexeme <;> simp [Lexeme.place]

theorem finite_of_tokenize {front : List Token} {final : Token} {pos : Position} (scopes : List Scope)
    (read : tokenize text pos = .ok (front ++ [final])) :
    State.Finite ⟨unplaced front, final.place nowhere, scopes, 0⟩ := by
  obtain ⟨front', final', same, ended, inner, -⟩ := (positioned_tokensWithin read).ends
  obtain ⟨rfl, one⟩ := List.append_inj' same rfl
  obtain rfl := List.singleton_inj.1 one
  refine ⟨fun token mem => ?_, endOfText_place_iff.2 ended⟩
  obtain ⟨placed, among, rfl⟩ := List.mem_map.1 mem
  exact mt endOfText_place_iff.1 (inner placed among)

/-- A sequence that its tokens end is carried on by the tokens below it, which are read in the scopes behind it. -/
theorem sequence_within_iff {front gap more : List Token} {final : Token} {scopes : List Scope} {mid last : State}
    (h : Sequence ⟨front, final, scopes, 0⟩ before mid) (finite : State.Finite ⟨front, final, scopes, 0⟩)
    (parted : ∀ others, Parted front (gap ++ others)) (separates : ∀ token ∈ gap, token.lexeme.isSeparator = true)
    (capped : Capped more) :
    Sequence (.within (front ++ gap ++ more) .origin scopes) found last ↔ ∃ others,
      Sequence (.within more .origin mid.scopes) others last ∧ found = before ++ others := by
  have spent := (finite.behind h.behind).ahead_eq_nil h.ends
  have barred : mid.barred = 0 := h.behind.barred
  have split := capped.split ⟨.endOfText, .origin, true⟩
  generalize more.dropLast = inner, more.getLast?.getD ⟨.endOfText, .origin, true⟩ = end' at split
  subst split
  have whole : State.within (front ++ gap ++ (inner ++ [end'])) .origin scopes =
      State.followed (gap ++ inner) end' ⟨front, final, scopes, 0⟩ := by
    rw [← List.append_assoc, State.within_append, List.append_assoc]
    rfl
  have begun : (mid.followed (gap ++ inner) end').begun =
      (State.within (inner ++ [end']) .origin mid.scopes).begun := by
    rw [State.within_append]
    change State.mk ((mid.ahead ++ (gap ++ inner)).dropWhile _) end' mid.scopes mid.barred = _
    rw [spent, barred, List.nil_append, List.dropWhile_append_of_pos separates]
    rfl
  rw [whole, h.followed_iff finite (parted inner)]
  exact exists_congr fun others => and_congr_left fun _ => Sequence.congr begun

/-- What stands below a text whose last statement has ended adds the statements that its own tokens are read as, in the
scopes behind the text. -/
theorem outline_below (read : outline text = some before) (unmarked : Gap.marked true text = false)
    (ended : EndsStatement text) : ∃ scopes, ∀ below, Gap.continuesWithDot below = false → ∀ all,
      outline (text ++ '\n' :: below) = some all ↔ ∃ tokens others last,
        (tokenize below .origin).toOption.map unplaced = some tokens ∧
          Sequence (.within tokens .origin scopes) others last ∧ all = before ++ others := by
  obtain ⟨tokens, mid, tokenized, sequence⟩ := outline_eq_some_iff.1 read
  obtain ⟨placed, scanned, rfl⟩ := Option.map_eq_some_iff.1 tokenized
  have scanned := toOption_eq_some_iff.1 scanned
  obtain ⟨front, final, gap, rfl, between, onward⟩ := tokenize_linesBelow scanned unmarked ended
  rw [unplaced_append, show unplaced [final] = [final.place nowhere] from rfl, State.within_append] at sequence
  have parted (more : List Token) : Parted (unplaced front) (gap ++ more) := by
    obtain ⟨-, closed⟩ | rfl := between
    · exact .inl ((closed_congr (Scan.separators_unplaced front)).2 closed)
    · exact .inr ⟨_, rfl, rfl⟩
  have separates : ∀ token ∈ gap, token.lexeme.isSeparator = true := by
    obtain ⟨rfl, -⟩ | rfl := between
    · exact nofun
    · exact List.forall_mem_singleton.2 rfl
  have finite := finite_of_tokenize [⟨true, []⟩] scanned
  refine ⟨mid.scopes, fun below undotted all => ?_⟩
  rw [outline_eq_some_iff, onward below undotted]
  constructor
  · rintro ⟨tokens, last, split, whole⟩
    obtain ⟨placed, same, rfl⟩ := Option.map_eq_some_iff.1 split
    have alone : (tokenize below .origin).toOption.map unplaced = some (unplaced placed) := by rw [same]; rfl
    obtain ⟨others, added, rfl⟩ :=
      (sequence_within_iff sequence finite parted separates (capped_of_read alone)).1 whole
    exact ⟨_, others, last, alone, added, rfl⟩
  · rintro ⟨tokens, others, last, alone, added, rfl⟩
    obtain ⟨placed, same, rfl⟩ := Option.map_eq_some_iff.1 alone
    have whole := (sequence_within_iff sequence finite parted separates (capped_of_read alone)).2 ⟨others, added, rfl⟩
    refine ⟨_, last, ?_, whole⟩
    rw [same]
    rfl

/-! Code in a string -/

theorem undotted_interpolated (code : List Char) : Gap.continuesWithDot (interpolated code) = false := rfl

/-- The string of code adds itself, with the statements that the code adds. -/
theorem outline_interpolated (read : outline text = some before) (unmarked : Gap.marked true text = false)
    (ended : EndsStatement text) (braced : Braced code) (undotted : Gap.continuesWithDot code = false) :
    outline (text ++ '\n' :: interpolated code) = some found ↔ ∃ statements,
      outline (text ++ '\n' :: code) = some (before ++ statements) ∧ found = before ++ [codeString statements] := by
  obtain ⟨scopes, onward⟩ := outline_below read unmarked ended
  have string (inner : List Token) :
      State.within (unplaced [⟨.string [.code inner .origin], .origin, true⟩, ⟨.endOfText, .origin, true⟩]) .origin
          scopes =
        .codeString (unplaced inner) .origin .origin true ⟨.endOfText, .origin, true⟩ scopes 0 := by
    simp only [State.within, State.codeString, List.map_cons, List.map_nil, Token.place_eq, Lexeme.place, placeSegment,
      placeTokens_eq]
    rfl
  rw [onward _ (undotted_interpolated code), tokenize_interpolated braced]
  constructor
  · rintro ⟨tokens, others, last, split, read', rfl⟩
    obtain ⟨inner, tokenized, rfl⟩ := Option.map_eq_some_iff.1 split
    rw [string] at read'
    obtain ⟨statements, mid, alone, rfl, -⟩ := (sequence_codeString_iff rfl).1 read'
    refine ⟨statements, (onward code undotted _).2 ⟨_, statements, mid, ?_, alone, rfl⟩, rfl⟩
    rw [tokenized]
    rfl
  · rintro ⟨statements, added, rfl⟩
    obtain ⟨tokens, others, last, split, alone, same⟩ := (onward code undotted _).1 added
    obtain rfl := List.append_cancel_left same
    obtain ⟨inner, tokenized, rfl⟩ := Option.map_eq_some_iff.1 split
    have whole : Sequence (.codeString (unplaced inner) .origin .origin true ⟨.endOfText, .origin, true⟩ scopes 0)
        [codeString statements] _ := (sequence_codeString_iff rfl).2 ⟨statements, last, alone, rfl, rfl⟩
    rw [← string] at whole
    exact ⟨_, _, _, by rw [tokenized]; rfl, whole, rfl⟩

theorem isSome_outline (text : List Char) : (outline text).isSome = (parseRecipe text).toOption.isSome :=
  Option.isSome_map

theorem outline_code (read : outline text = some before) (unmarked : Gap.marked true text = false)
    (ended : EndsStatement text) (braced : Braced code) (undotted : Gap.continuesWithDot code = false) :
    ((parseRecipe (text ++ '\n' :: interpolated code)).toOption.isSome =
        (parseRecipe (text ++ '\n' :: code)).toOption.isSome) ∧
      ∀ all, outline (text ++ '\n' :: code) = some all → ∃ statements, all = before ++ statements ∧
        outline (text ++ '\n' :: interpolated code) = some (before ++ [codeString statements]) := by
  have string (found : List Node) := @outline_interpolated _ _ _ found read unmarked ended braced undotted
  have outside (all : List Node) (h : outline (text ++ '\n' :: code) = some all) : ∃ statements,
      all = before ++ statements ∧
        outline (text ++ '\n' :: interpolated code) = some (before ++ [codeString statements]) := by
    obtain ⟨scopes, onward⟩ := outline_below read unmarked ended
    obtain ⟨-, statements, -, -, -, rfl⟩ := (onward code undotted all).1 h
    exact ⟨statements, rfl, (string _).2 ⟨statements, h, rfl⟩⟩
  refine ⟨?_, outside⟩
  rw [← isSome_outline, ← isSome_outline, Bool.eq_iff_iff, Option.isSome_iff_exists, Option.isSome_iff_exists]
  constructor
  · rintro ⟨found, h⟩
    obtain ⟨statements, added, -⟩ := (string found).1 h
    exact ⟨_, added⟩
  · rintro ⟨all, h⟩
    obtain ⟨statements, -, added⟩ := outside all h
    exact ⟨_, added⟩

/-- Code in a string means what the same code means outside, below a text whose last statement a newline ends. A string
of the code can be read there if and only if the code can, and it holds the statements that the code adds to those of
the text. So it is again for a string in the code, below the text and what stands in front of the string in the code. -/
theorem interpolation_means_the_same (read : outline text = some before) (unmarked : Gap.marked true text = false)
    (ended : EndsStatement text) (braced : Braced code) (undotted : Gap.continuesWithDot code = false) :
    ((parseRecipe (text ++ '\n' :: interpolated code)).toOption.isSome =
        (parseRecipe (text ++ '\n' :: code)).toOption.isSome) ∧
      (∀ all, outline (text ++ '\n' :: code) = some all → ∃ statements, all = before ++ statements ∧
        outline (text ++ '\n' :: interpolated code) = some (before ++ [codeString statements])) ∧
      ∀ first inner added, code = first ++ '\n' :: interpolated inner →
        outline (text ++ '\n' :: first) = some (before ++ added) → Gap.marked true (text ++ '\n' :: first) = false →
        EndsStatement (text ++ '\n' :: first) → Braced inner → Gap.continuesWithDot inner = false →
        ((parseRecipe (text ++ '\n' :: interpolated code)).toOption.isSome =
            (parseRecipe (text ++ '\n' :: (first ++ '\n' :: inner))).toOption.isSome) ∧
          ∀ all, outline (text ++ '\n' :: (first ++ '\n' :: inner)) = some all → ∃ statements,
            all = before ++ (added ++ statements) ∧ outline (text ++ '\n' :: interpolated code) =
              some (before ++ [codeString (added ++ [codeString statements])]) := by
  obtain ⟨accepted, outside⟩ := outline_code read unmarked ended braced undotted
  refine ⟨accepted, outside, ?_⟩
  rintro first inner added rfl read' unmarked' ended' braced' undotted'
  have split (below : List Char) :
      text ++ '\n' :: (first ++ '\n' :: below) = text ++ '\n' :: first ++ '\n' :: below := by
    simp
  obtain ⟨accepted', outside'⟩ := outline_code read' unmarked' ended' braced' undotted'
  rw [← split, ← split] at accepted' outside'
  refine ⟨accepted.trans accepted', fun all h => ?_⟩
  obtain ⟨statements, rfl, within⟩ := outside' all h
  rw [List.append_assoc] at within
  obtain ⟨found, same, whole⟩ := outside _ within
  obtain rfl := List.append_cancel_left same
  exact ⟨statements, List.append_assoc .., whole⟩

/-- A local that the text assigns, one that the code assigns, and a string in the code that reads it. -/
theorem interpolation_means_the_same_nested :
    let text := "a = 1".toList
    let first := "b = a".toList
    let inner := "b".toList
    ∃ before added statements, outline text = some before ∧ outline (text ++ '\n' :: first) = some (before ++ added) ∧
      outline (text ++ '\n' :: (first ++ '\n' :: inner)) = some (before ++ (added ++ statements)) ∧
      outline (text ++ '\n' :: interpolated (first ++ '\n' :: interpolated inner)) =
        some (before ++ [codeString (added ++ [codeString statements])]) := by
  intro text first inner
  have accepts {text : List Char} (h : (outline text).isSome = true) : ∃ found, outline text = some found :=
    Option.isSome_iff_exists.1 h
  obtain ⟨before, read⟩ := accepts (by decide +kernel : (outline text).isSome = true)
  have ended : EndsStatement text := by decide +kernel
  obtain ⟨all, read'⟩ := accepts (by decide +kernel : (outline (text ++ '\n' :: first)).isSome = true)
  obtain ⟨added, rfl, -⟩ := (outline_code read (by decide) ended (by decide) (by decide)).2 all read'
  obtain ⟨whole, within⟩ :=
    accepts (by decide +kernel : (outline (text ++ '\n' :: (first ++ '\n' :: inner))).isSome = true)
  obtain ⟨-, -, nested⟩ := @interpolation_means_the_same text (first ++ '\n' :: interpolated inner) before read
    (by decide) ended (by decide) (by decide)
  obtain ⟨-, inside⟩ := nested first inner added rfl read' (by decide) (by decide +kernel) (by decide) (by decide)
  obtain ⟨statements, rfl, string⟩ := inside whole within
  exact ⟨before, added, statements, read, read', within, string⟩

/-- A block comment takes the newline behind it, so that a line that a backslash carries on is carried on below the
comment. The string is no statement there but an argument of the call in front of the comment. -/
theorem interpolation_joined :
    let text := "foo \\\n=begin\n=end".toList
    let code := "1".toList
    (outline text).isSome = true ∧ Gap.marked true text = false ∧ Braced code ∧ Gap.continuesWithDot code = false ∧
      ∃ found, outline (text ++ '\n' :: interpolated code) = some found ∧
        ∀ others statements, found ≠ others ++ [codeString statements] := by
  intro text code
  have calls : (outline (text ++ '\n' :: interpolated code)).map (List.map isOwnCall) = some [true] := by decide +kernel
  obtain ⟨found, read, call⟩ := Option.map_eq_some_iff.1 calls
  refine ⟨by decide +kernel, by decide, by decide, by decide, found, read, fun others statements same => ?_⟩
  rw [same, List.map_append] at call
  obtain ⟨-, last⟩ := List.append_inj' (call.trans (List.nil_append _).symm) rfl
  exact Bool.noConfusion (List.singleton_inj.1 last)

end Formulary
