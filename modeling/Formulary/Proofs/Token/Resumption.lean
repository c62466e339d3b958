import Formulary.Proofs.Token.Enclosed
import Formulary.Proofs.Token.Extension

/-!
A scan that goes on at the start of a line, behind a separator, finds what a scan of the text left finds, in lower lines.
What is read of the last token says of none and of a separator the same.
-/

namespace Formulary

/-- The tokens so many lines further down. -/
abbrev lowered (lines : Nat) : List Token → List Token :=
  List.map (Token.place (·.down lines))

theorem Position.after_down (pos : Position) (lines : Nat) (c : Char) :
    (pos.down lines).after c = (pos.after c).down lines := by
  unfold after down
  split
  · simp [Nat.add_right_comm]
  · rfl

theorem Position.down_down (pos : Position) (lines more : Nat) :
    (pos.down lines).down more = (pos.down more).down lines := by
  simp [down, Nat.add_right_comm]

/-- The cursor so many lines further down. -/
def Cursor.down (lines : Nat) (cursor : Cursor) : Cursor :=
  { cursor with pos := cursor.pos.down lines }

namespace Scan

open Body Gap Result Seam Spelling

/-- Where one reads code, the other reads the same tokens so many lines further down. -/
def Lowers (lines : Nat) (code code' : Reader) : Prop :=
  ∀ text pos tokens, code text pos = .ok tokens → code' text (pos.down lines) = .ok (lowered lines tokens)

abbrev loweredSegments (lines : Nat) : Segments → Segments :=
  List.map (placeSegment (·.down lines))

/-- The same state so many lines further down, behind a last token of which the scan reads the same. -/
structure Lowered (lines : Nat) (state state' : State) : Prop where
  cursor : state'.cursor = state.cursor.down lines
  spaced : state'.spaced = state.spaced
  last : Akin state.last state'.last
  pending : state'.pending.map Prod.fst = state.pending.map Prod.fst

variable {lines : Nat} {code code' : Reader} {state state' : State} {cursor : Cursor} {found : Found} {c : Char}
  {text more after : List Char} {lexeme : Lexeme Token}

/-! Literals -/

theorem splitBody_lowered (lowers : Lowers lines code code') {embeds : Bool} {closer : Option Char} {skip : Nat}
    {pos : Position} {segments : Segments} (h : Literal.splitBody code embeds closer skip pos text = .ok segments) :
    Literal.splitBody code' embeds closer skip (pos.down lines) text = .ok (loweredSegments lines segments) := by
  induction text generalizing skip pos segments with
  | nil => exact Except.ok.inj h ▸ rfl
  | cons c more ih =>
    have step {skip : Nat} {pos pos' : Position} (there : pos' = pos.down lines) {g : Segments → Segments}
        (natural : ∀ segments, loweredSegments lines (g segments) = g (loweredSegments lines segments))
        (h : (Literal.splitBody code embeds closer skip pos more).map g = .ok segments) :
        (Literal.splitBody code' embeds closer skip pos' more).map g = .ok (loweredSegments lines segments) := by
      obtain ⟨inner, hinner, rfl⟩ := map_eq_ok_iff.1 h
      exact map_eq_ok_iff.2 ⟨_, there ▸ ih hinner, (natural inner).symm⟩
    unfold Literal.splitBody at h ⊢
    cases skip with
    | succ skip => exact ih h
    | zero =>
      dsimp only at h ⊢
      split at h
      · rename_i line
        rw [if_pos line]
        exact step (by simp [Position.down, Nat.add_right_comm]) (consText_place _ c) h
      · rename_i inline
        rw [if_neg inline]
        split at h
        · refine step ?_ (foldr_consText_place _ _) h
          split
          · rw [Position.down_down]
            rfl
          · rfl
        · split at h
          · rename_i opens
            rw [if_pos opens]
            split at h
            · contradiction
            · obtain ⟨inner, hinner, h⟩ := bind_eq_ok_iff.1 h
              obtain ⟨others, hothers, h⟩ := bind_eq_ok_iff.1 h
              obtain rfl := pure_eq_ok_iff.1 h
              have behind := ih hothers
              rw [← Position.down_down] at behind
              refine bind_eq_ok_iff.2 ⟨_, lowers _ _ _ hinner, bind_eq_ok_iff.2 ⟨_, behind, ?_⟩⟩
              simp [placeSegment, placeTokens_eq, pure, Except.pure]
          · rename_i plain
            rw [if_neg plain]
            exact step rfl (consText_place _ c) h

theorem segments_lowered (lowers : Lowers lines code code') {embeds : Bool} {closer : Option Char} {pos : Position}
    {segments : Segments} (h : Literal.segments code embeds closer pos text = .ok segments) :
    Literal.segments code' embeds closer (pos.down lines) text = .ok (loweredSegments lines segments) := by
  obtain ⟨inner, hinner, rfl⟩ := map_eq_ok_iff.1 h
  refine map_eq_ok_iff.2 ⟨_, splitBody_lowered lowers hinner, ?_⟩
  cases inner <;> rfl

/-! Cursors -/

theorem rest_down (lines : Nat) (cursor : Cursor) : (cursor.down lines).rest = cursor.rest := rfl

theorem next_down (lines : Nat) (cursor : Cursor) : (cursor.down lines).next = cursor.next.down lines := by
  obtain ⟨rest, pos, fresh⟩ := cursor
  cases rest with
  | nil => rfl
  | cons c more => simp [Cursor.next, Cursor.down, Position.after_down]

theorem skip_down (lines n : Nat) (cursor : Cursor) : (cursor.down lines).skip n = (cursor.skip n).down lines := by
  induction n generalizing cursor with
  | zero => rfl
  | succ n ih => rw [Cursor.skip, next_down, ih, Cursor.skip]

theorem moveTo_down (lines : Nat) (cursor : Cursor) (rest : List Char) :
    (cursor.down lines).moveTo rest = (cursor.moveTo rest).down lines :=
  skip_down lines _ cursor

theorem readBody_down {marks : Literal.Delimiters} {found : List Char × List Char}
    (h : Literal.readBody marks 0 0 cursor.pos cursor.rest = .ok found) :
    Literal.readBody marks 0 0 (cursor.down lines).pos (cursor.down lines).rest = .ok found := by
  have nothing : ([] : List Char).head? ≠ some '\x7b' := nofun
  have there : Literal.readBody marks 0 0 (cursor.pos.down lines) (cursor.rest ++ []) = .ok (found.1, found.2 ++ []) :=
    readBody_append nothing nothing _ (by simpa using h)
  simp only [List.append_nil] at there
  exact there

section Literals

variable (lowers : Lowers lines code code')
include lowers

theorem literal_lowered {marks : Literal.Delimiters} {segments : Segments}
    (h : literal code marks cursor = .ok (segments, after)) :
    literal code' marks (cursor.down lines) = .ok (loweredSegments lines segments, after) := by
  obtain ⟨inner, hread, hsegments⟩ := literal_eq_ok_iff.1 h
  exact literal_eq_ok_iff.2 ⟨inner, readBody_down hread, segments_lowered lowers hsegments⟩

theorem delimited_lowered {build : Segments → Lexeme Token} {marks : Literal.Delimiters}
    (places : ∀ segments, (build segments).place (·.down lines) = build (loweredSegments lines segments))
    (h : (do let (segments, behind) ← literal code marks cursor; return (build segments, behind)) =
      Except.ok (lexeme, after)) :
    (do let (segments, behind) ← literal code' marks (cursor.down lines); return (build segments, behind)) =
      Except.ok (lexeme.place (·.down lines), after) := by
  obtain ⟨⟨segments, behind⟩, hliteral, eq⟩ := bind_eq_ok_iff.1 h
  obtain ⟨rfl, rfl⟩ := Prod.mk.inj (pure_eq_ok_iff.1 eq)
  exact bind_eq_ok_iff.2 ⟨_, literal_lowered lowers hliteral, by rw [places]; rfl⟩

theorem quotedSymbol_lowered {quote : Char} {start : Position}
    (h : quotedSymbol code quote start cursor = .ok (lexeme, after)) :
    quotedSymbol code' quote (start.down lines) (cursor.down lines) = .ok (lexeme, after) := by
  obtain ⟨segments, name, hliteral, plain, rfl⟩ := quotedSymbol_eq_ok_iff.1 h
  exact quotedSymbol_eq_ok_iff.2 ⟨_, name, literal_lowered lowers hliteral, (plainText?_place _ _).trans plain, rfl⟩

theorem afterColon_lowered (h : afterColon code cursor = .ok (lexeme, after)) :
    afterColon code' (cursor.down lines) = .ok (lexeme, after) := by
  unfold afterColon at h ⊢
  rw [rest_down, skip_down]
  split at h
  · exact h
  · exact quotedSymbol_lowered lowers h
  · exact quotedSymbol_lowered lowers h
  · exact h
  · exact h

omit lowers in
theorem body_lowered {marks : Literal.Delimiters} {found : List Char × List Char} (h : body marks cursor = .ok found) :
    body marks (cursor.down lines) = .ok found :=
  body_eq_ok_iff.2 (readBody_down (body_eq_ok_iff.1 h))

omit lowers in
theorem regexp_lowered {marks : Literal.Delimiters} (h : regexp marks cursor = .ok (lexeme, after)) :
    regexp marks (cursor.down lines) = .ok (lexeme, after) := by
  obtain ⟨inner, behind, hread, rfl, rfl⟩ := regexp_eq_ok_iff.1 h
  exact regexp_eq_ok_iff.2 ⟨inner, behind, readBody_down hread, rfl, rfl⟩

theorem percentLiteral_lowered {percent : Percent} (h : percentLiteral code percent cursor = .ok (lexeme, after)) :
    percentLiteral code' percent (cursor.down lines) = .ok (lexeme.place (·.down lines), after) := by
  refine percentLiteral_eq_ok_iff.2 ?_
  cases percentLiteral_eq_ok_iff.1 h with
  | regexp kind h =>
    rw [(bare_regexp h).place_eq]
    exact .regexp kind (regexp_lowered h)
  | words kind h => exact .words kind (body_lowered h)
  | symbols kind h => exact .symbols kind (body_lowered h)
  | string kind h => exact .string kind (literal_lowered lowers h)

end Literals

/-! Tokens -/

namespace Lowered

variable (low : Lowered lines state state')
include low

theorem rest : state'.cursor.rest = state.cursor.rest := by
  rw [low.cursor]
  rfl

theorem operand : operandExpected state' = operandExpected state := by
  unfold operandExpected
  rw [low.spaced, low.rest]
  exact low.last.operand _ _

theorem heredoc : heredoc? state' = heredoc? state := by
  rw [heredoc?, heredoc?, low.operand, low.rest]

theorem atBlockComment_eq : atBlockComment state' = atBlockComment state := by
  rw [atBlockComment, low.cursor]
  rfl

theorem atData_eq : atData state' = atData state := by
  rw [atData, low.cursor]
  rfl

theorem atCode (atCode : AtCode state) : AtCode state' :=
  ⟨low.atBlockComment_eq.trans atCode.1, low.atData_eq.trans atCode.2⟩

theorem moved {rest : List Char} :
    Lowered lines { state with cursor := state.cursor.moveTo rest } { state' with cursor := state'.cursor.moveTo rest } :=
  { low with cursor := low.cursor ▸ moveTo_down lines state.cursor rest }

theorem taken (lexeme : Lexeme Token) (rest : List Char) :
    Lowered lines (state.taken lexeme rest) (state'.taken (lexeme.place (·.down lines)) rest) where
  cursor := low.moved.cursor
  spaced := rfl
  last := .place _ (some lexeme)
  pending := low.pending

end Lowered

theorem plainToken_lowered (lowers : Lowers lines code code') (low : Lowered lines state state')
    (front : state.cursor.rest = c :: more) (h : plainToken code state c = .ok (lexeme, after)) :
    plainToken code' state' c = .ok (lexeme.place (·.down lines), after) := by
  have next : state'.cursor.next = state.cursor.next.down lines := low.cursor ▸ next_down lines state.cursor
  have skip (n : Nat) : state'.cursor.skip n = (state.cursor.skip n).down lines :=
    low.cursor ▸ skip_down lines n state.cursor
  have elim {found : Option (Lexeme Token × List Char)} {error error' : Malformed} (bare : Bare lexeme)
      (h : found.elim (Except.error error) Except.ok = Except.ok (lexeme, after)) :
      found.elim (Except.error error') Except.ok = Except.ok (lexeme.place (·.down lines), after) := by
    rw [bare.place_eq]
    exact elim_eq_ok_iff.2 (elim_eq_ok_iff.1 h)
  have signs {error error' : Malformed} (h : (sign state.cursor.rest).elim (.error error) .ok = Except.ok (lexeme, after)) :
      (sign state.cursor.rest).elim (.error error') .ok = Except.ok (lexeme.place (·.down lines), after) :=
    elim (bare_sign (elim_eq_ok_iff.1 h)) h
  cases lead c with
  | digit digit =>
    rw [plainToken_digit digit] at h
    have found : number state.cursor.rest = (lexeme, after) := Except.ok.inj h
    have bare := bare_number state.cursor.rest
    rw [found] at bare
    rw [plainToken_digit digit, low.rest, found, bare.place_eq]
  | letter digit letter =>
    rw [plainToken_letter digit letter] at h
    have found : word state.last state.cursor.rest = (lexeme, after) := Except.ok.inj h
    have bare : Bare (word state.last state.cursor.rest).1 := front ▸ bare_word (isNameChar_of_letter letter) state.last
    rw [found] at bare
    rw [plainToken_letter digit letter, low.rest, low.last.word, found, bare.place_eq]
  | sigil =>
    rw [plainToken_sigil] at h ⊢
    rw [low.rest]
    exact elim (bare_instanceName (elim_eq_ok_iff.1 h)) h
  | dollar =>
    rw [plainToken_dollar] at h ⊢
    rw [low.rest]
    exact elim (bare_globalName (elim_eq_ok_iff.1 h)) h
  | quote quote =>
    rw [plainToken_quote quote] at h ⊢
    rw [next]
    exact delimited_lowered lowers (fun _ => rfl) h
  | back =>
    rw [plainToken_back] at h ⊢
    rw [next]
    exact delimited_lowered lowers (fun _ => rfl) h
  | colon =>
    rw [plainToken_colon] at h ⊢
    rw [low.cursor, (bare_afterColon h).place_eq]
    exact afterColon_lowered lowers h
  | slash =>
    rw [plainToken_slash] at h ⊢
    rw [low.operand, low.rest, next]
    by_cases operand : operandExpected state = true
    · rw [if_pos operand] at h ⊢
      rw [(bare_regexp h).place_eq]
      exact regexp_lowered h
    · rw [if_neg operand] at h ⊢
      exact signs h
  | percent =>
    rw [plainToken_percent] at h ⊢
    rw [low.operand, low.rest]
    by_cases operand : operandExpected state = true
    · rw [if_pos operand] at h ⊢
      split at h
      · rw [skip]
        exact percentLiteral_lowered lowers h
      · exact signs h
    · rw [if_neg operand] at h ⊢
      exact signs h
  | sign other =>
    rw [plainToken_sign other] at h ⊢
    rw [low.rest]
    exact signs h

theorem token_lowered (lowers : Lowers lines code code') (low : Lowered lines state state')
    (front : state.cursor.rest = c :: more) (h : token code state c = .ok found) :
    ∃ found', token code' state' c = .ok found' ∧ found'.tokens = lowered lines found.tokens ∧
      found'.bodies = found.bodies.map (loweredSegments lines) ∧ Lowered lines found.state found'.state := by
  have place (lexeme : Lexeme Token) : (⟨lexeme.place (·.down lines), state'.cursor.pos, state'.spaced⟩ : Token) =
      Token.place (·.down lines) ⟨lexeme, state.cursor.pos, state.spaced⟩ := by
    rw [Token.place_eq, low.cursor, low.spaced]
    rfl
  obtain ⟨opener, after, rfl, opens, rfl⟩ | ⟨closed, lexeme, after, hplain, rfl⟩ := token_cases h
  · have opens' : heredoc? state' = some (opener, after) := low.heredoc.trans opens
    refine ⟨_, token_of_heredoc opens', congrArg ([·]) (place (.string [])), rfl, { low.taken (.string []) after with
      pending := ?_ }⟩
    rw [List.map_append, List.map_append, low.pending]
    rfl
  · have closed' (less : c = '<') : heredoc? state' = none := low.heredoc.trans (closed less)
    exact ⟨_, token_of_plain closed' (plainToken_lowered lowers low front hplain), congrArg ([·]) (place lexeme), rfl,
      low.taken lexeme after⟩

/-! Heredocs -/

theorem readBodies_lowered (lowers : Lowers lines code code') {pending pending' : List (Heredoc.Opener × Position)}
    (openers : pending'.map Prod.fst = pending.map Prod.fst) {bodies : List Segments} {behind : Cursor}
    (h : readBodies code cursor pending = .ok (bodies, behind)) :
    readBodies code' (cursor.down lines) pending' =
      .ok (bodies.map (loweredSegments lines), behind.down lines) := by
  induction pending generalizing pending' cursor bodies with
  | nil =>
    obtain rfl : pending' = [] := by simpa using openers
    obtain ⟨rfl, rfl⟩ := Prod.mk.inj (Except.ok.inj h)
    rfl
  | cons opened more ih =>
    obtain ⟨⟨opener', pos'⟩, more', rfl⟩ : ∃ first others, pending' = first :: others :=
      List.exists_cons_of_ne_nil (by rintro rfl; simp at openers)
    obtain ⟨opener, pos⟩ := opened
    obtain ⟨rfl, others⟩ : opener' = opener ∧ more'.map Prod.fst = more.map Prod.fst := by simpa using openers
    obtain ⟨rows, rest, body, bodies', htake, hbody, hmore, rfl⟩ := readBodies_cons_iff.1 h
    have there := segments_lowered lowers hbody
    have behind := ih others hmore
    rw [← moveTo_down] at behind
    exact readBodies_cons_iff.2 ⟨rows, rest, _, _, htake, there, behind, rfl⟩

theorem newline_lowered (lowers : Lowers lines code code') (low : Lowered lines state state')
    (h : newline code state = .ok found) :
    ∃ found', newline code' state' = .ok found' ∧ found'.tokens = lowered lines found.tokens ∧
      found'.bodies = found.bodies.map (loweredSegments lines) ∧ Lowered lines found.state found'.state := by
  obtain ⟨bodies, cursor, hbodies, rfl⟩ := newline_cases h
  have there : readBodies code' state'.cursor.next state'.pending =
      .ok (bodies.map (loweredSegments lines), cursor.down lines) := by
    rw [low.cursor, next_down]
    exact readBodies_lowered lowers low.pending hbodies
  refine ⟨_, newline_eq_ok there, ?_⟩
  rw [low.last.separable, rest_down]
  split
  · exact ⟨rfl, rfl, rfl, rfl, low.last, rfl⟩
  · refine ⟨?_, rfl, rfl, rfl, .refl _, rfl⟩
    rw [low.cursor]
    rfl

/-! Whole scans -/

theorem Step.lowered (lowers : Lowers lines code code') (low : Lowered lines state state')
    (h : Step code state found) :
    ∃ found', Step code' state' found' ∧ found'.tokens = lowered lines found.tokens ∧
      found'.bodies = found.bodies.map (loweredSegments lines) ∧ Lowered lines found.state found'.state := by
  cases h with
  | blockComment some begins behind =>
    exact ⟨_, .blockComment (low.rest ▸ some) (low.atBlockComment_eq.trans begins) (low.rest ▸ behind), rfl, rfl, low.moved⟩
  | blank front atCode blank =>
    refine ⟨_, .blank (low.rest.trans front) (low.atCode atCode) blank, rfl, rfl, ?_, rfl, low.last, low.pending⟩
    rw [low.cursor, next_down]
  | continuation front atCode =>
    refine ⟨_, .continuation (low.rest.trans front) (low.atCode atCode), rfl, rfl, ?_, rfl, low.last, low.pending⟩
    rw [low.cursor, skip_down]
  | comment front atCode =>
    refine ⟨_, .comment (low.rest.trans front) (low.atCode atCode), rfl, rfl, ?_⟩
    rw [low.rest]
    exact low.moved
  | newline front atCode h =>
    obtain ⟨found', h', same⟩ := newline_lowered lowers low h
    exact ⟨found', .newline (low.rest.trans front) (low.atCode atCode) h', same⟩
  | token front atCode solid single hash line h =>
    obtain ⟨found', h', same⟩ := token_lowered lowers low front h
    exact ⟨found', .token (low.rest.trans front) (low.atCode atCode) solid single hash line h', same⟩

theorem Scans.lowered (lowers : Lowers lines code code') (low : Lowered lines state state') {tokens : List Token}
    {bodies : List Segments} (h : Scans code state tokens bodies) :
    Scans code' state' (lowered lines tokens) (bodies.map (loweredSegments lines)) := by
  induction h generalizing state' with
  | @done state stops idle =>
    have stops' : step code' state' = .ok none := by
      refine step_eq_none_iff.2 ?_
      rw [low.rest, low.atBlockComment_eq, low.atData_eq]
      exact step_eq_none_iff.1 stops
    have idle' : state'.pending = [] := by simpa [idle] using low.pending
    have place : Token.place (·.down lines) ⟨.endOfText, state.cursor.pos, true⟩ =
        ⟨.endOfText, state'.cursor.pos, true⟩ := by
      rw [low.cursor]
      rfl
    rw [lowered, List.map_singleton, place]
    exact .done stops' idle'
  | next hstep _ ih =>
    obtain ⟨found', hstep', tokens, bodies, low'⟩ := hstep.lowered lowers low
    have scans := Scans.next hstep' (ih low')
    rwa [tokens, bodies, ← List.map_append, ← List.map_append] at scans

/-- A text that begins some lines further down gives the same tokens, that many lines further down. -/
theorem tokensWithin_lowered (lines depth : Nat) : Lowers lines (tokensWithin depth) (tokensWithin depth) := by
  induction depth with
  | zero => exact nofun
  | succ depth ih =>
    intro text pos tokens h
    obtain ⟨found, bodies, scans, rfl⟩ := tokensWithin_eq_ok_iff.1 h
    have low : Lowered lines (.ofText text pos) (.ofText text (pos.down lines)) :=
      ⟨rfl, rfl, .refl none, rfl⟩
    exact tokensWithin_eq_ok_iff.2 ⟨_, _, scans.lowered ih low, plug_place _ found bodies⟩

/-- Where a scan comes to the start of a line behind a separator, the tokens of the text left follow in lower lines. -/
theorem Reaches.resume {depth : Nat} {source rest : List Char} {separator : Lexeme Token} {tokens behind : List Token}
    {bodies : List Segments} (separates : separator.isSeparator = true)
    (reached : Reaches (tokensWithin depth) (.ofText source .origin) tokens bodies
      ⟨⟨rest, Position.origin.down lines, true⟩, true, some separator, []⟩)
    (full : (tokens.filter isHollow).length = bodies.length) (deep : rest.length ≤ depth)
    (read : tokenize rest .origin = .ok behind) :
    tokensWithin (depth + 1) source .origin = .ok (plug tokens bodies ++ lowered lines behind) := by
  have deeper := tokensWithin_append data_nil (.nil rest) (Nat.succ_le_succ deep) read
  rw [List.append_nil] at deeper
  obtain ⟨found, filled, scans, rfl⟩ := tokensWithin_eq_ok_iff.1 deeper
  have low : Lowered lines (.ofText rest .origin) ⟨⟨rest, Position.origin.down lines, true⟩, true, some separator, []⟩ :=
    ⟨rfl, rfl, .separator separates, rfl⟩
  have all := reached.scans_iff.2 ⟨_, _, scans.lowered (tokensWithin_lowered lines depth) low, rfl, rfl⟩
  refine tokensWithin_eq_ok_iff.2 ⟨_, _, all, ?_⟩
  rw [plug_append full, lowered, plug_place]

end Scan

end Formulary
