import Formulary.Proofs.Token.Step

/-!
Two scans side by side, whose texts agree up to a point and are laid out differently from there on. As long as a
token ends before that point, both scans read it alike.
-/

namespace Formulary.Scan

open Body Gap Result Seam Spelling

/-- What follows a point in a text, and what may follow it instead. Neither goes on with the token before it. -/
structure Parting (rest rest' : List Char) : Prop where
  line : ∀ c ∈ rest.head?, c = '\n'
  soft' : Soft rest'

theorem Parting.soft {rest rest' : List Char} (parting : Parting rest rest') : Soft rest :=
  fun c head => .inr (parting.line c head)

/-- What follows a point in a text, and what may follow it instead without a difference for the lines below. -/
structure Exchange (rest rest' : List Char) : Prop extends Parting rest rest' where
  both : rest = [] ↔ rest' = []
  layout : ∀ inComment, afterLayout inComment rest' = afterLayout inComment rest

theorem exchange_nil : Exchange [] [] :=
  ⟨⟨nofun, soft_nil⟩, Iff.rfl, fun _ => rfl⟩

/-- Last tokens behind which a scan goes on alike. -/
structure Akin (last last' : Option (Lexeme Token)) : Prop where
  ended : last'.any Lexeme.endsValue = last.any Lexeme.endsValue
  named : last'.any Lexeme.isIdentifier = last.any Lexeme.isIdentifier
  forced : (last'.any fun l => l.isDot || l.isKeyword "def") = last.any fun l => l.isDot || l.isKeyword "def"
  asked : last'.any Lexeme.isQuestion = last.any Lexeme.isQuestion
  separable : last'.any (!·.isSeparator) = last.any (!·.isSeparator)

/-- A text is left in front of the point, and nothing but positions differs in what was read so far. -/
structure Twin (rest rest' text : List Char) (state state' : State) : Prop where
  front : state.cursor.rest = text ++ rest
  front' : state'.cursor.rest = text ++ rest'
  fresh : state'.cursor.fresh = state.cursor.fresh ∨
    startsWith state.cursor.rest "=begin" = false ∧ atDataMark state.cursor.rest = false
  spaced : state'.spaced = state.spaced
  last : Akin state.last state'.last
  pending : state'.pending.map Prod.fst = state.pending.map Prod.fst

/-- Whether an operand can begin here, if a sign can begin one that no blank and no newline follows. -/
def operandPossible (state : State) : Bool :=
  match state.last with
  | none => true
  | some last => !last.endsValue || (last.isIdentifier && state.spaced)

/-- The signs that open a literal if a delimiter follows them. -/
def Opens (text : List Char) : Prop :=
  text = ['/'] ∨ text = ['%'] ∨ ∃ kind ∈ Percent.kinds, text = ['%', kind]

/-- Such a sign is left, and an operand can begin there. -/
def Exposed (state : State) (text : List Char) : Prop :=
  operandPossible state = true ∧ Opens text

variable {code code' : Reader} {bound : Nat} {rest rest' text : List Char} {state state' : State}

theorem exists_eq_append {after : List Char} (h : after <:+ text ++ rest) (long : rest.length ≤ after.length) :
    ∃ front, after = front ++ rest := by
  obtain ⟨front, eq⟩ := List.suffix_of_suffix_length_le (List.suffix_append text rest) h long
  exact ⟨front, eq.symm⟩

/-! Literals -/

theorem hard_isFlag : Hard isFlag := by decide

theorem plainText?_place (f : Position → Position) (segments : Segments) :
    plainText? (segments.map (placeSegment f)) = plainText? segments := by
  unfold plainText?
  rw [List.foldlM_map]
  congr 1
  funext text segment
  cases segment <;> rfl

theorem plainText?_of_unplaced {segments segments' : Segments}
    (same : unplacedSegments segments' = unplacedSegments segments) : plainText? segments' = plainText? segments :=
  (plainText?_place nowhere segments').symm.trans ((congrArg plainText? same).trans (plainText?_place nowhere segments))

section Literals

variable (refines : Refines bound code code') (parting : Parting rest rest')
include parting

variable {cursor cursor' : Cursor} (front : cursor.rest = text ++ rest) (front' : cursor'.rest = text ++ rest')
include front front'

theorem readBody_twin {marks : Literal.Delimiters} {body after : List Char}
    (h : Literal.readBody marks 0 0 cursor.pos cursor.rest = .ok (body, after ++ rest)) :
    Literal.readBody marks 0 0 cursor'.pos cursor'.rest = .ok (body, after ++ rest') := by
  rw [front] at h
  rw [front']
  exact readBody_append (parting.soft.head_ne _ (by decide)) (parting.soft'.head_ne _ (by decide)) _ h

theorem regexp_twin {marks : Literal.Delimiters} {lexeme : Lexeme Token} {after : List Char}
    (h : regexp marks cursor = .ok (lexeme, after ++ rest)) :
    regexp marks cursor' = .ok (lexeme, after ++ rest') := by
  obtain ⟨body, behind, hread, rfl, eq⟩ := regexp_eq_ok_iff.1 h
  have long : rest.length ≤ behind.length := by
    have := (List.dropWhile_suffix isFlag (l := behind)).length_le
    rw [← eq, List.length_append] at this
    omega
  obtain ⟨inner, rfl⟩ := exists_eq_append (front ▸ readBody_suffix hread) long
  rw [dropWhile_append parting.soft hard_isFlag] at eq
  obtain rfl := List.append_cancel_right eq
  refine regexp_eq_ok_iff.2 ⟨body, inner ++ rest', readBody_twin parting front front' hread, ?_, ?_⟩
  · rw [takeWhile_append parting.soft hard_isFlag, takeWhile_append parting.soft' hard_isFlag]
  · rw [dropWhile_append parting.soft' hard_isFlag]

variable (short : text.length ≤ bound)
include refines short

theorem literal_twin {marks : Literal.Delimiters} {segments : Segments} {after : List Char}
    (h : literal code marks cursor = .ok (segments, after ++ rest)) :
    ∃ segments', literal code' marks cursor' = .ok (segments', after ++ rest') ∧
      unplacedSegments segments' = unplacedSegments segments := by
  obtain ⟨body, hread, hsegments⟩ := literal_eq_ok_iff.1 h
  have within : body.length ≤ bound := by
    have := length_of_readBody hread
    rw [front] at this
    simp only [List.length_append] at this
    omega
  obtain ⟨segments', hsegments', same⟩ := segments_refines refines cursor'.pos within hsegments
  exact ⟨segments', literal_eq_ok_iff.2 ⟨body, readBody_twin parting front front' hread, hsegments'⟩, same⟩

theorem delimited_twin {build : Segments → Lexeme Token} {marks : Literal.Delimiters} {lexeme : Lexeme Token}
    {after : List Char} (places : ∀ segments, (build segments).place nowhere = build (unplacedSegments segments))
    (h : (do let (segments, behind) ← literal code marks cursor; return (build segments, behind)) =
      Except.ok (lexeme, after ++ rest)) :
    ∃ lexeme', (do let (segments, behind) ← literal code' marks cursor'; return (build segments, behind)) =
      Except.ok (lexeme', after ++ rest') ∧ lexeme'.place nowhere = lexeme.place nowhere := by
  obtain ⟨⟨segments, behind⟩, hliteral, eq⟩ := bind_eq_ok_iff.1 h
  obtain ⟨rfl, rfl⟩ := Prod.mk.inj (pure_eq_ok_iff.1 eq)
  obtain ⟨segments', hliteral', same⟩ := literal_twin refines parting front front' short hliteral
  refine ⟨build segments', bind_eq_ok_iff.2 ⟨_, hliteral', rfl⟩, ?_⟩
  rw [places, places, same]

theorem quotedSymbol_twin {quote : Char} {start : Position} (start' : Position) {lexeme : Lexeme Token}
    {after : List Char} (h : quotedSymbol code quote start cursor = .ok (lexeme, after ++ rest)) :
    quotedSymbol code' quote start' cursor' = .ok (lexeme, after ++ rest') := by
  obtain ⟨segments, name, hliteral, plain, rfl⟩ := quotedSymbol_eq_ok_iff.1 h
  obtain ⟨segments', hliteral', same⟩ := literal_twin refines parting front front' short hliteral
  refine quotedSymbol_eq_ok_iff.2 ⟨segments', name, hliteral', ?_, rfl⟩
  exact plain ▸ plainText?_of_unplaced same

theorem percentLiteral_twin {percent : Percent} {lexeme : Lexeme Token} {after : List Char}
    (h : percentLiteral code percent cursor = .ok (lexeme, after ++ rest)) :
    ∃ lexeme', percentLiteral code' percent cursor' = .ok (lexeme', after ++ rest') ∧
      lexeme'.place nowhere = lexeme.place nowhere := by
  have body_twin {inner : List Char} (h : body percent.marks cursor = .ok (inner, after ++ rest)) :
      body percent.marks cursor' = .ok (inner, after ++ rest') :=
    body_eq_ok_iff.2 (readBody_twin parting front front' (body_eq_ok_iff.1 h))
  cases percentLiteral_eq_ok_iff.1 h with
  | regexp kind h => exact ⟨lexeme, percentLiteral_eq_ok_iff.2 (.regexp kind (regexp_twin parting front front' h)), rfl⟩
  | words kind h => exact ⟨_, percentLiteral_eq_ok_iff.2 (.words kind (body_twin h)), rfl⟩
  | symbols kind h => exact ⟨_, percentLiteral_eq_ok_iff.2 (.symbols kind (body_twin h)), rfl⟩
  | string kind h =>
    obtain ⟨segments', hliteral', same⟩ := literal_twin refines parting front front' short h
    exact ⟨_, percentLiteral_eq_ok_iff.2 (.string kind hliteral'), congrArg Lexeme.string same⟩

end Literals

/-! Behind a colon -/

theorem afterColon_colon {cursor : Cursor} {more : List Char} (front : cursor.rest.tail = ':' :: more) :
    afterColon code cursor = .ok (.doubleColon, more) := by
  unfold afterColon
  rw [front]
  rfl

theorem afterColon_quote {cursor : Cursor} {c : Char} {more : List Char} (front : cursor.rest.tail = c :: more)
    (quote : c = '"' ∨ c = '\'') : afterColon code cursor = quotedSymbol code c cursor.pos (cursor.skip 2) := by
  unfold afterColon
  rw [front]
  obtain rfl | rfl := quote <;> rfl

/-- Neither a colon nor a quote: a symbol or the colon alone. -/
theorem afterColon_other {cursor : Cursor} {c : Char} {more : List Char} (front : cursor.rest.tail = c :: more)
    (colon : c ≠ ':') (quote : ¬(c = '"' ∨ c = '\'')) : afterColon code cursor =
      if Text.isLetter c || c = '_' then
        .ok (.symbol (String.ofList ((c :: more).take (symbolLength (c :: more)))),
          (c :: more).drop (symbolLength (c :: more)))
      else .ok (.colon, c :: more) := by
  unfold afterColon
  rw [front]
  split
  · simp_all
  · simp_all
  · simp_all
  · rename_i eq
    obtain ⟨rfl, rfl⟩ := List.cons.inj eq
    rfl
  · contradiction

theorem afterColon_soft {cursor : Cursor} (front : cursor.rest.tail = rest) (soft : Soft rest) :
    afterColon code cursor = .ok (.colon, rest) := by
  cases rest with
  | nil =>
    unfold afterColon
    rw [front]
  | cons c more =>
    have colon : c ≠ ':' := by simpa using soft.head_ne ':' (by decide)
    have double : c ≠ '"' := by simpa using soft.head_ne '"' (by decide)
    have single : c ≠ '\'' := by simpa using soft.head_ne '\'' (by decide)
    have letter : (Text.isLetter c || c = '_') = false :=
      soft.head_any (fun c => Text.isLetter c || c = '_') (by decide)
    rw [afterColon_other front colon (not_or.2 ⟨double, single⟩), letter]
    rfl

/-! Words and signs -/

namespace Akin

variable {last last' : Option (Lexeme Token)}

theorem refl (last : Option (Lexeme Token)) : Akin last last :=
  ⟨rfl, rfl, rfl, rfl, rfl⟩

theorem symm (akin : Akin last last') : Akin last' last :=
  ⟨akin.ended.symm, akin.named.symm, akin.forced.symm, akin.asked.symm, akin.separable.symm⟩

theorem trans {last'' : Option (Lexeme Token)} (akin : Akin last last') (akin' : Akin last' last'') : Akin last last'' :=
  ⟨akin'.ended.trans akin.ended, akin'.named.trans akin.named, akin'.forced.trans akin.forced,
    akin'.asked.trans akin.asked, akin'.separable.trans akin.separable⟩

theorem place (f : Position → Position) (last : Option (Lexeme Token)) : Akin last (last.map (Lexeme.place f)) := by
  have blind {test : Lexeme Token → Bool} (blind : Blind f test) :
      (last.map (Lexeme.place f)).any test = last.any test := by
    cases last with
    | none => rfl
    | some lexeme => exact blind lexeme
  exact ⟨blind (blind_of_strings (fun _ => rfl) fun _ => rfl), blind (blind_of_strings (fun _ => rfl) fun _ => rfl),
    blind (blind_of_strings (fun _ => rfl) fun _ => rfl), blind (blind_of_strings (fun _ => rfl) fun _ => rfl),
    blind (blind_of_strings (fun _ => rfl) fun _ => rfl)⟩

theorem of_unplaced (same : last'.map (Lexeme.place nowhere) = last.map (Lexeme.place nowhere)) : Akin last last' :=
  (place nowhere last).trans (same ▸ (place nowhere last').symm)

/-- Behind a separator a scan goes on as at the start of a text. -/
theorem separator {lexeme : Lexeme Token} (separator : lexeme.isSeparator = true) : Akin none (some lexeme) := by
  cases lexeme <;> first | contradiction | exact ⟨rfl, rfl, rfl, rfl, rfl⟩

theorem word (akin : Akin last last') (text : List Char) : word last' text = word last text := by
  unfold Spelling.word
  rw [akin.forced, akin.asked]

/-- What an operand's place says of the last token, with what follows the sign. -/
theorem operand (spaced follows : Bool) : Akin last last' →
    (match last' with
      | none => true
      | some last => !last.endsValue || (last.isIdentifier && spaced && follows)) =
    match last with
      | none => true
      | some last => !last.endsValue || (last.isIdentifier && spaced && follows) := by
  intro akin
  have reads (last : Option (Lexeme Token)) : (match last with
      | none => true
      | some last => !last.endsValue || (last.isIdentifier && spaced && follows)) =
      (!last.any Lexeme.endsValue || (last.any Lexeme.isIdentifier && spaced && follows)) := by
    cases last <;> rfl
  rw [reads, reads, akin.ended, akin.named]

end Akin

namespace Twin

variable (twin : Twin rest rest' text state state')
include twin

theorem operandPossible_eq : operandPossible state' = operandPossible state := by
  simpa [operandPossible, twin.spaced] using twin.last.operand state.spaced true

end Twin

theorem operandExpected_of_not_possible (h : operandPossible state = false) : operandExpected state = false := by
  unfold operandPossible at h
  unfold operandExpected
  split
  · rename_i none
    simp [none] at h
  · rename_i last some
    simp only [some, Bool.or_eq_false_iff] at h
    simp [h.1, h.2]

theorem operandPossible_of_operandExpected (h : operandExpected state = true) : operandPossible state = true := by
  cases possible : operandPossible state with
  | true => rfl
  | false =>
    rw [operandExpected_of_not_possible possible] at h
    contradiction

theorem operandExpected_twin {c : Char} {more : List Char} (parting : Parting rest rest')
    (twin : Twin rest rest' (c :: more) state state')
    (safe : more = [] → rest'.head? = some '\r' → operandPossible state = false) :
    operandExpected state' = operandExpected state := by
  by_cases possible : operandPossible state = true
  · have follows : (state'.cursor.rest.tail.head?.any fun c => !([' ', '\t', '\n', '='].contains c)) =
        state.cursor.rest.tail.head?.any fun c => !([' ', '\t', '\n', '='].contains c) := by
      rw [twin.front, twin.front', List.cons_append, List.cons_append, List.tail_cons, List.tail_cons]
      cases more with
      | cons d others => rfl
      | nil =>
        have line : (rest.head?.any fun c => !([' ', '\t', '\n', '='].contains c)) = false := by
          cases rest with
          | nil => rfl
          | cons d others => rw [parting.line d rfl]; rfl
        have blank : (rest'.head?.any fun c => !([' ', '\t', '\n', '='].contains c)) = false := by
          cases rest' with
          | nil => rfl
          | cons d others =>
            have plain : d ≠ '\r' := by
              rintro rfl
              rw [safe rfl rfl] at possible
              contradiction
            have soft := parting.soft' d rfl
            simp only [isSpace, Bool.or_eq_true, decide_eq_true_eq, plain, or_false] at soft
            obtain (rfl | rfl) | rfl := soft <;> rfl
        rw [List.nil_append, List.nil_append, blank, line]
    unfold operandExpected
    rw [follows, twin.spaced]
    exact twin.last.operand _ _
  · have impossible : operandPossible state = false := Bool.eq_false_iff.2 possible
    rw [operandExpected_of_not_possible impossible, operandExpected_of_not_possible]
    rw [twin.operandPossible_eq, impossible]

/-- A sign or a variable that ends within the text. -/
theorem elim_append {found : Option (Lexeme Token × List Char)} {error : Malformed} {lexeme : Lexeme Token}
    {after : List Char} : (found.map fun (lexeme, behind) => (lexeme, behind ++ rest)).elim (Except.error error)
      Except.ok = Except.ok (lexeme, after ++ rest) ↔ found = some (lexeme, after) := by
  rw [elim_eq_ok_iff, Option.map_eq_some_iff]
  constructor
  · rintro ⟨⟨lexeme', behind⟩, found, eq⟩
    obtain ⟨rfl, same⟩ : lexeme' = lexeme ∧ behind ++ rest = after ++ rest := Prod.mk.inj eq
    rw [found, List.append_cancel_right same]
  · intro found
    exact ⟨_, found, rfl⟩

theorem opening_le {text : List Char} {percent : Percent} (h : Percent.read? text = some percent) :
    percent.opening ≤ text.length + 1 := by
  cases text with
  | nil => contradiction
  | cons first more =>
    rw [read?_cons] at h
    split at h
    · obtain ⟨delimiter, some, h⟩ := Option.bind_eq_some_iff.1 h
      obtain ⟨others, rfl⟩ := List.head?_eq_some_iff.1 some
      rw [opening_percentOf h]
      simp only [List.length_cons]
      split <;> omega
    · rename_i plain
      rw [opening_percentOf h, if_neg plain, List.length_cons]
      omega

theorem globalName_twin (parting : Parting rest rest') {lexeme : Lexeme Token} {after : List Char}
    {error error' : Malformed}
    (h : (globalName (text ++ rest)).elim (Except.error error) Except.ok = Except.ok (lexeme, after ++ rest)) :
    (globalName (text ++ rest')).elim (Except.error error') Except.ok = Except.ok (lexeme, after ++ rest') := by
  cases text with
  | nil =>
    rw [List.nil_append] at h
    have found := elim_eq_ok_iff.1 h
    cases rest with
    | nil => contradiction
    | cons c more =>
      obtain rfl := parting.line c rfl
      obtain ⟨-, eq⟩ := Prod.mk.inj (Option.some.inj found)
      have := congrArg List.length eq
      simp only [List.tail_cons, List.length_append, List.length_cons] at this
      omega
  | cons c more =>
    rw [globalName_append parting.soft, elim_append] at h
    rw [globalName_append parting.soft', elim_append, h]

section Tokens

variable (refines : Refines bound code code') (parting : Parting rest rest')
include refines parting

theorem afterColon_twin {cursor cursor' : Cursor} (front : cursor.rest = ':' :: (text ++ rest))
    (front' : cursor'.rest = ':' :: (text ++ rest')) (short : text.length ≤ bound) {lexeme : Lexeme Token}
    {after : List Char} (h : afterColon code cursor = .ok (lexeme, after ++ rest)) :
    afterColon code' cursor' = .ok (lexeme, after ++ rest') := by
  have tail : cursor.rest.tail = text ++ rest := by rw [front, List.tail_cons]
  have tail' : cursor'.rest.tail = text ++ rest' := by rw [front', List.tail_cons]
  cases text with
  | nil =>
    rw [afterColon_soft tail parting.soft] at h
    obtain ⟨rfl, eq⟩ := Prod.mk.inj (Except.ok.inj h)
    obtain rfl : after = [] := List.self_eq_append_left.1 eq
    exact afterColon_soft tail' parting.soft'
  | cons c more =>
    rw [List.cons_append] at tail tail'
    have skip : (cursor.skip 2).rest = more ++ rest := by rw [rest_skip, front]; rfl
    have skip' : (cursor'.skip 2).rest = more ++ rest' := by rw [rest_skip, front']; rfl
    have less : more.length ≤ bound := by
      rw [List.length_cons] at short
      omega
    by_cases colon : c = ':'
    · subst colon
      rw [afterColon_colon tail] at h
      rw [afterColon_colon tail']
      obtain ⟨rfl, eq⟩ := Prod.mk.inj (Except.ok.inj h)
      rw [List.append_cancel_right eq]
    by_cases quote : c = '"' ∨ c = '\''
    · rw [afterColon_quote tail quote] at h
      rw [afterColon_quote tail' quote]
      exact quotedSymbol_twin refines parting skip skip' less _ h
    rw [afterColon_other tail colon quote] at h
    rw [afterColon_other tail' colon quote]
    have length : symbolLength (c :: (more ++ rest)) = symbolLength (c :: more) :=
      symbolLength_append parting.soft (c :: more)
    have length' : symbolLength (c :: (more ++ rest')) = symbolLength (c :: more) :=
      symbolLength_append parting.soft' (c :: more)
    have within := symbolLength_le (c :: more)
    rw [length, ← List.cons_append, List.take_append_of_le_length within, List.drop_append_of_le_length within] at h
    rw [length', ← List.cons_append, List.take_append_of_le_length within, List.drop_append_of_le_length within]
    split at h
    · rename_i letter
      rw [if_pos letter]
      obtain ⟨rfl, eq⟩ := Prod.mk.inj (Except.ok.inj h)
      rw [List.append_cancel_right eq]
    · rename_i letter
      rw [if_neg letter]
      obtain ⟨rfl, eq⟩ := Prod.mk.inj (Except.ok.inj h)
      rw [List.append_cancel_right eq]

omit refines in
theorem sign_twin (twin : Twin rest rest' text state state') {lexeme : Lexeme Token} {after : List Char}
    {error : Malformed} (error' : Malformed)
    (h : (sign state.cursor.rest).elim (Except.error error) Except.ok = Except.ok (lexeme, after ++ rest)) :
    (sign state'.cursor.rest).elim (Except.error error') Except.ok = Except.ok (lexeme, after ++ rest') := by
  rw [twin.front, sign_append parting.soft, elim_append] at h
  rw [twin.front', sign_append parting.soft', elim_append, h]

omit refines in
/-- Where a literal can open, its opener does not hang on the layout behind the text. -/
theorem read?_twin {more : List Char} (possible : operandPossible state = true)
    (safe : rest'.head? = some '\r' → ¬Exposed state ('%' :: more)) :
    Percent.read? (more ++ rest) = Percent.read? more ∧ Percent.read? (more ++ rest') = Percent.read? more := by
  constructor
  · refine read?_append parting.soft fun back => ?_
    have := parting.line '\r' back
    contradiction
  · refine read?_append parting.soft' fun back => ⟨?_, ?_⟩
    · rintro rfl
      exact safe back ⟨possible, .inr (.inl rfl)⟩
    · rintro kind mem rfl
      exact safe back ⟨possible, .inr (.inr ⟨kind, mem, rfl⟩)⟩

theorem percent_twin {more after : List Char} {lexeme : Lexeme Token} {error : Malformed} (error' : Malformed)
    (twin : Twin rest rest' ('%' :: more) state state') (short : ('%' :: more).length ≤ bound)
    (operand : operandExpected state = true) (safe : rest'.head? = some '\r' → ¬Exposed state ('%' :: more))
    (h : (match Percent.read? state.cursor.rest.tail with
      | some percent => percentLiteral code percent (state.cursor.skip percent.opening)
      | none => (sign state.cursor.rest).elim (.error error) .ok) = Except.ok (lexeme, after ++ rest)) :
    ∃ lexeme', (match Percent.read? state'.cursor.rest.tail with
      | some percent => percentLiteral code' percent (state'.cursor.skip percent.opening)
      | none => (sign state'.cursor.rest).elim (.error error') .ok) = Except.ok (lexeme', after ++ rest') ∧
        lexeme'.place nowhere = lexeme.place nowhere := by
  obtain ⟨read, read'⟩ := read?_twin parting (operandPossible_of_operandExpected operand) safe
  rw [twin.front, List.cons_append, List.tail_cons, read, ← List.cons_append, ← twin.front] at h
  rw [twin.front', List.cons_append, List.tail_cons, read', ← List.cons_append, ← twin.front']
  split at h
  · rename_i percent found
    have within : percent.opening ≤ ('%' :: more).length := opening_le found
    have skip : (state.cursor.skip percent.opening).rest = ('%' :: more).drop percent.opening ++ rest := by
      rw [rest_skip, twin.front, List.drop_append_of_le_length within]
    have skip' : (state'.cursor.skip percent.opening).rest = ('%' :: more).drop percent.opening ++ rest' := by
      rw [rest_skip, twin.front', List.drop_append_of_le_length within]
    refine percentLiteral_twin refines parting skip skip' ?_ h
    rw [List.length_drop]
    omega
  · exact ⟨lexeme, sign_twin parting twin error' h, rfl⟩

theorem plainToken_twin {c : Char} {more after : List Char} {lexeme : Lexeme Token}
    (twin : Twin rest rest' (c :: more) state state') (short : (c :: more).length ≤ bound)
    (safe : rest'.head? = some '\r' → ¬Exposed state (c :: more))
    (h : plainToken code state c = .ok (lexeme, after ++ rest)) :
    ∃ lexeme', plainToken code' state' c = .ok (lexeme', after ++ rest') ∧
      lexeme'.place nowhere = lexeme.place nowhere := by
  have tail : state.cursor.rest.tail = more ++ rest := by rw [twin.front, List.cons_append, List.tail_cons]
  have tail' : state'.cursor.rest.tail = more ++ rest' := by rw [twin.front', List.cons_append, List.tail_cons]
  have next : state.cursor.next.rest = more ++ rest := by rw [rest_next, tail]
  have next' : state'.cursor.next.rest = more ++ rest' := by rw [rest_next, tail']
  have less : more.length ≤ bound := Nat.le_of_succ_le short
  have expected (sign : c = '/' ∨ c = '%') : operandExpected state' = operandExpected state := by
    refine operandExpected_twin parting twin fun alone back => Bool.eq_false_iff.2 fun possible => ?_
    refine safe back ⟨possible, ?_⟩
    rw [alone]
    obtain rfl | rfl := sign
    · exact .inl rfl
    · exact .inr (.inl rfl)
  cases lead c with
  | digit digit =>
    rw [plainToken_digit digit, twin.front, number_append parting.soft] at h
    rw [plainToken_digit digit, twin.front', number_append parting.soft']
    obtain ⟨rfl, eq⟩ := Prod.mk.inj (Except.ok.inj h)
    exact ⟨_, by rw [List.append_cancel_right eq], rfl⟩
  | letter digit letter =>
    rw [plainToken_letter digit letter, twin.front, word_append parting.soft] at h
    rw [plainToken_letter digit letter, twin.front', word_append parting.soft', twin.last.word]
    obtain ⟨rfl, eq⟩ := Prod.mk.inj (Except.ok.inj h)
    exact ⟨_, by rw [List.append_cancel_right eq], rfl⟩
  | sigil =>
    rw [plainToken_sigil, tail, instanceName_append parting.soft, elim_append] at h
    exact ⟨lexeme, by rw [plainToken_sigil, tail', instanceName_append parting.soft', elim_append, h], rfl⟩
  | dollar =>
    rw [plainToken_dollar, tail] at h
    exact ⟨lexeme, by rw [plainToken_dollar, tail', globalName_twin parting h], rfl⟩
  | quote quote =>
    rw [plainToken_quote quote] at h ⊢
    exact delimited_twin refines parting next next' less (fun _ => rfl) h
  | back => exact delimited_twin refines parting next next' less (fun _ => rfl) h
  | colon => exact ⟨lexeme, afterColon_twin refines parting twin.front twin.front' less h, rfl⟩
  | slash =>
    rw [plainToken_slash] at h ⊢
    rw [expected (.inl rfl)]
    by_cases operand : operandExpected state = true
    · rw [if_pos operand] at h ⊢
      exact ⟨lexeme, regexp_twin parting next next' h, rfl⟩
    · rw [if_neg operand] at h ⊢
      exact ⟨lexeme, sign_twin parting twin _ h, rfl⟩
  | percent =>
    rw [plainToken_percent] at h ⊢
    rw [expected (.inr rfl)]
    by_cases operand : operandExpected state = true
    · rw [if_pos operand] at h ⊢
      exact percent_twin refines parting _ twin short operand safe h
    · rw [if_neg operand] at h ⊢
      exact ⟨lexeme, sign_twin parting twin _ h, rfl⟩
  | sign other =>
    rw [plainToken_sign other] at h ⊢
    exact ⟨lexeme, sign_twin parting twin _ h, rfl⟩

end Tokens

end Formulary.Scan
