import Formulary.Proofs.Token.Interpolation
import Formulary.Proofs.Token.Names
import Formulary.Proofs.Token.Twin

/-! Where the bodies of literals stand in a text: behind the sign that opens them, or on the lines below. -/

namespace Formulary

theorem Position.past_inline (pos : Position) {text : List Char} (inline : '\n' ∉ text) :
    pos.past text = pos.right text.length := by
  induction text generalizing pos with
  | nil => rfl
  | cons c more ih =>
    obtain ⟨first, others⟩ : '\n' ≠ c ∧ '\n' ∉ more := by simpa using inline
    refine (ih (pos.after c) others).trans ?_
    simp only [after, Ne.symm first, if_false, right, List.length_cons, mk.injEq, true_and]
    omega

/-- The sign that opens a literal, and its delimiters. -/
inductive Literal.Opening : List Char → Literal.Delimiters → Prop
  | quote {c : Char} : c ∈ ['"', '\'', '\x60'] → Opening [c] ⟨none, c, c ≠ '\''⟩
  | percent {sign : List Char} {percent : Percent} : Percent.read? sign = some percent →
      percent.opening = sign.length + 1 → Opening ('%' :: sign) percent.marks

namespace Scan

open Body Result Seam Spelling Literal

variable {code : Reader} {cursor : Cursor} {state last : State} {found : Found} {lexeme : Lexeme Token} {c : Char}
  {text more after : List Char} {start : Position} {tokens : List Token} {bodies : List Segments}

/-! Literals -/

/-- A literal with the segments of the body that stands between its sign and what follows it. -/
def Filled (code : Reader) (cursor : Cursor) (lexeme : Lexeme Token) (after : List Char) : Prop :=
  lexeme.segments ≠ [] ∧ ∃ sign marks body, Opening sign marks ∧ sign ++ body ++ marks.closer :: after = cursor.rest ∧
    Literal.segments code marks.embeds (some marks.closer) (cursor.pos.past sign) body = .ok lexeme.segments

theorem segments_ne_nil {embeds : Bool} {closer : Option Char} {pos : Position} {body : List Char}
    {segments : Segments} (h : Literal.segments code embeds closer pos body = .ok segments) : segments ≠ [] := by
  obtain ⟨found, -, rfl⟩ := map_eq_ok_iff.1 h
  split
  · nofun
  · rename_i some
    simpa using some

theorem filled_of_literal {sign : List Char} {marks : Delimiters} {segments : Segments} (opening : Opening sign marks)
    (front : cursor.rest = sign ++ text) (holds : lexeme.segments = segments)
    (h : literal code marks (cursor.skip sign.length) = .ok (segments, after)) : Filled code cursor lexeme after := by
  obtain ⟨body, hread, hfound⟩ := literal_eq_ok_iff.1 h
  rw [rest_skip, front, List.drop_left] at hread
  rw [Cursor.pos_skip_past, front, List.take_left] at hfound
  subst holds
  exact ⟨segments_ne_nil hfound, sign, marks, body, opening, by rw [front, eq_of_readBody hread, List.append_assoc],
    hfound⟩

/-- What opens a percent literal is told by its opening alone. -/
theorem read?_take {percent : Percent} (h : Percent.read? text = some percent) :
    Percent.read? (text.take (percent.opening - 1)) = some percent := by
  cases text with
  | nil => contradiction
  | cons first rest =>
    rw [read?_cons] at h
    split at h
    · rename_i named
      obtain ⟨delimiter, second, h⟩ := Option.bind_eq_some_iff.1 h
      obtain ⟨rest, rfl⟩ := List.head?_eq_some_iff.1 second
      rw [opening_percentOf h, if_pos named]
      exact (read?_cons ..).trans ((if_pos named).trans h)
    · rename_i bare
      rw [opening_percentOf h, if_neg bare]
      exact (read?_cons ..).trans ((if_neg bare).trans h)

theorem percentLiteral_bare_or_filled {percent : Percent} (front : cursor.rest = '%' :: more)
    (read : Percent.read? more = some percent)
    (h : percentLiteral code percent (cursor.skip percent.opening) = .ok (lexeme, after)) :
    Bare lexeme ∨ Filled code cursor lexeme after := by
  cases percentLiteral_eq_ok_iff.1 h with
  | regexp _ h => exact .inl (bare_regexp h)
  | words | symbols => exact .inl ⟨trivial, rfl⟩
  | string _ hliteral =>
    have signed : percent.opening = (more.take (percent.opening - 1)).length + 1 := by
      have := opening_le read
      have := two_le_opening read
      rw [List.length_take]
      omega
    have opening : Opening ('%' :: more.take (percent.opening - 1)) percent.marks :=
      .percent (read?_take read) signed
    have front' : cursor.rest = '%' :: more.take (percent.opening - 1) ++ more.drop (percent.opening - 1) := by
      rw [front, List.cons_append, List.take_append_drop]
    refine .inr (filled_of_literal opening front' rfl ?_)
    rwa [List.length_cons, ← signed]

theorem plainToken_bare_or_filled (front : state.cursor.rest = c :: more)
    (h : plainToken code state c = .ok (lexeme, after)) : Bare lexeme ∨ Filled code state.cursor lexeme after := by
  cases plainToken_cases front h with
  | number => exact .inl (bare_number _)
  | word name => exact .inl (bare_word name state.last)
  | instanceVar _ h => exact .inl (bare_instanceName h)
  | globalVar _ h => exact .inl (bare_globalName h)
  | string quote h =>
    have opening : Opening [c] ⟨none, c, c = '"'⟩ := by
      obtain rfl | rfl := quote
      · exact .quote (by decide)
      · exact .quote (by decide)
    exact .inr (filled_of_literal opening front rfl h)
  | shell quote h =>
    subst quote
    exact .inr (filled_of_literal (.quote (by decide)) front rfl h)
  | colon _ h => exact .inl (bare_afterColon h)
  | regexp _ h => exact .inl (bare_regexp h)
  | percent sign read hpercent =>
    subst sign
    exact percentLiteral_bare_or_filled front read hpercent
  | sign h => exact .inl (bare_sign h)

/-! Heredocs -/

/-- A body takes its lines, the line that ends it and the newline behind that one, if the text goes on. -/
theorem eq_of_takeBody {opener : Heredoc.Opener} {line : List Char} {lines : List (List Char)}
    (h : Heredoc.takeBody opener line text = some (lines, after)) :
    ∃ ending, line.reverse ++ text = lines.flatten ++ (ending ++ after) ∧
      (after = [] ∨ ending.getLast? = some '\n') := by
  induction text generalizing line lines with
  | nil =>
    unfold Heredoc.takeBody at h
    split at h
    · obtain ⟨rfl, rfl⟩ := Prod.mk.inj (Option.some.inj h)
      exact ⟨line.reverse, rfl, .inl rfl⟩
    · contradiction
  | cons c more ih =>
    unfold Heredoc.takeBody at h
    split at h
    · rename_i newline
      subst newline
      split at h
      · obtain ⟨rfl, rfl⟩ := Prod.mk.inj (Option.some.inj h)
        exact ⟨line.reverse ++ ['\n'], by simp, .inr (by simp)⟩
      · obtain ⟨⟨found, behind⟩, hfound, eq⟩ := Option.map_eq_some_iff.1 h
        obtain ⟨rfl, rfl⟩ := Prod.mk.inj eq
        obtain ⟨ending, whole, ends⟩ := ih hfound
        refine ⟨ending, ?_, ends⟩
        rw [List.flatten_cons, List.append_assoc _ found.flatten, ← whole]
        simp
    · obtain ⟨ending, whole, ends⟩ := ih h
      refine ⟨ending, ?_, ends⟩
      rw [← whole]
      simp

/-- What is left of lines that may have lost their margins. -/
def Unindented (lines kept : List (List Char)) : Prop :=
  List.Forall₂ (fun line left => ∃ margin, margin.all Heredoc.isMargin = true ∧ line = margin ++ left) lines kept

theorem unindented_self (lines : List (List Char)) : Unindented lines lines :=
  List.forall₂_same.2 fun _ _ => ⟨[], rfl, rfl⟩

theorem Unindented.exists_suffix {lines kept : List (List Char)} (h : Unindented lines kept) :
    ∀ left ∈ kept, ∃ line ∈ lines, left <:+ line := by
  induction h with
  | nil => nofun
  | @cons line left lines kept own _ ih =>
    obtain ⟨margin, -, eq⟩ := own
    refine List.forall_mem_cons.2 ⟨⟨line, List.mem_cons_self, margin, eq.symm⟩, fun other among => ?_⟩
    obtain ⟨line', among', suffix⟩ := ih other among
    exact ⟨line', List.mem_cons_of_mem line among', suffix⟩

theorem unindented_dedent (lines : List (List Char)) : Unindented lines (Heredoc.dedent lines) := by
  obtain ⟨width, behind⟩ := Heredoc.exists_indents_dedent lines
  exact (behind.imp fun left line ⟨margin, marginal, eq, _⟩ => ⟨margin, marginal, eq⟩).flip

theorem bodyText_eq (opener : Heredoc.Opener) (lines : List (List Char)) :
    ∃ kept, opener.bodyText lines = kept.flatten ∧ Unindented lines kept ∧
      (opener.margin ≠ .trimmed → kept = lines) := by
  unfold Heredoc.Opener.bodyText
  split
  · exact ⟨_, rfl, unindented_dedent lines, fun untrimmed => (untrimmed ‹_›).elim⟩
  · exact ⟨lines, rfl, unindented_self lines, fun _ => rfl⟩

/-- A token with the opener of a heredoc where it stands. -/
def OpenedBy (start : Position) (text : List Char) (token : Token) (opener : Heredoc.Opener) : Prop :=
  ∃ front sign after, front ++ sign = text ∧ start.past front = token.pos ∧
    Heredoc.readOpener sign = some (opener, after)

/-- The segments of a heredoc whose body stands at the start of a line. -/
def BodyOf (code : Reader) (start : Position) (text : List Char) (opener : Heredoc.Opener)
    (segments : Segments) : Prop :=
  ∃ before rest lines after, before ++ rest = text ∧ before.getLast? = some '\n' ∧
    Heredoc.takeBody opener [] rest = some (lines, after) ∧
    Literal.segments code opener.embeds none (start.past before) (opener.bodyText lines) = .ok segments

theorem column_past_line (pos : Position) {text : List Char} (line : text.getLast? = some '\n') :
    (pos.past text).column = 1 := by
  obtain ⟨front, rfl⟩ := List.getLast?_eq_some_iff.1 line
  rw [Position.past_append]
  rfl

theorem readBodies_bodyOf {pending : List (Heredoc.Opener × Position)} {before : List Char} {behind : Cursor}
    (whole : before ++ cursor.rest = text) (counted : start.past before = cursor.pos)
    (lined : cursor.rest = [] ∨ before.getLast? = some '\n')
    (named : ∀ opened ∈ pending, opened.1.closedBy [] = false)
    (h : readBodies code cursor pending = .ok (bodies, behind)) :
    List.Forall₂ (BodyOf code start text) (pending.map (·.1)) bodies := by
  induction pending generalizing cursor before bodies with
  | nil =>
    obtain ⟨rfl, -⟩ := Prod.mk.inj (Except.ok.inj h)
    exact .nil
  | cons opened more ih =>
    obtain ⟨opener, pos⟩ := opened
    obtain ⟨closing, others⟩ := List.forall_mem_cons.1 named
    obtain ⟨lines, rest, body, bodies', htake, hbody, hmore, rfl⟩ := readBodies_cons_iff.1 h
    have line : before.getLast? = some '\n' := by
      refine lined.resolve_left fun none => ?_
      rw [none] at htake
      simp [Heredoc.takeBody, closing] at htake
    have first : (⟨cursor.pos.line, 1⟩ : Position) = start.past before := by
      rw [← counted, ← column_past_line start line]
    rw [first] at hbody
    refine .cons ⟨before, cursor.rest, lines, rest, whole, line, htake, hbody⟩ ?_
    have suffix := takeBody_suffix htake
    obtain ⟨before', whole', counted'⟩ := Cursor.Counts.movedOn ⟨before, whole, counted⟩ (movedOn_moveTo cursor rest)
    obtain ⟨ending, taken, ends⟩ := eq_of_takeBody htake
    refine ih whole' counted' ?_ others hmore
    rw [rest_moveTo suffix] at whole' ⊢
    refine ends.imp_right fun ends => ?_
    rw [List.reverse_nil, List.nil_append] at taken
    rw [← whole, taken, ← List.append_assoc, ← List.append_assoc] at whole'
    rw [List.append_cancel_right whole', List.getLast?_append, ends]
    rfl

/-- A token that a heredoc left to be filled with its body. -/
def isHollow (token : Token) : Bool :=
  match token.lexeme with
  | .string [] => true
  | _ => false

theorem isHollow_eq_false {token : Token} (filled : token.lexeme ≠ .string []) : isHollow token = false := by
  unfold isHollow
  split
  · exact (filled ‹_›).elim
  · rfl

theorem plug_append {tokens more : List Token} {filled bodies : List Segments}
    (full : (tokens.filter isHollow).length = filled.length) :
    plug (tokens ++ more) (filled ++ bodies) = plug tokens filled ++ plug more bodies := by
  induction tokens generalizing filled with
  | nil =>
    obtain rfl : filled = [] := List.eq_nil_of_length_eq_zero full.symm
    rfl
  | cons token others ih =>
    by_cases hollow : token.lexeme = .string []
    · obtain ⟨lexeme, pos, spaced⟩ := token
      subst hollow
      cases filled with
      | nil => simp [isHollow] at full
      | cons first later =>
        rw [List.filter_cons_of_pos rfl] at full
        exact congrArg _ (ih (Nat.succ.inj full))
    · rw [List.filter_cons_of_neg (by simp [isHollow_eq_false hollow])] at full
      rw [List.cons_append, plug_cons_of_ne hollow, plug_cons_of_ne hollow, List.cons_append, ih full]

/-- Tokens that wait for no body stay as they are. -/
theorem plug_of_solid {tokens more : List Token} {bodies : List Segments} (solid : tokens.filter isHollow = []) :
    plug (tokens ++ more) bodies = tokens ++ plug more bodies := by
  have full : (tokens.filter isHollow).length = ([] : List Segments).length := by rw [solid]; rfl
  have plugged : plug (tokens ++ more) ([] ++ bodies) = _ := plug_append full
  rwa [plug_nil] at plugged

/-- A newline takes the bodies of all open heredocs and opens none. -/
theorem newline_found (h : newline code state = .ok found) :
    (∃ cursor, readBodies code state.cursor.next state.pending = .ok (found.bodies, cursor)) ∧
      found.state.pending = [] ∧ found.tokens.filter isHollow = [] := by
  obtain ⟨bodies, cursor, hbodies, rfl⟩ := newline_cases h
  split <;> exact ⟨⟨cursor, hbodies⟩, rfl, rfl⟩

/-- The tokens of heredocs stand where these were opened, and the bodies come in the order of the openers, those of the
heredocs that were open before first. -/
theorem Scans.paired (h : Scans code state tokens bodies) (counts : state.cursor.Counts start text)
    (named : ∀ opened ∈ state.pending, opened.1.closedBy [] = false) :
    ∃ openers, List.Forall₂ (OpenedBy start text) (tokens.filter isHollow) openers ∧
      List.Forall₂ (BodyOf code start text) (state.pending.map (·.1) ++ openers) bodies := by
  induction h with
  | done _ idle =>
    refine ⟨[], .nil, ?_⟩
    rw [idle]
    exact .nil
  | @next state found tokens bodies hstep _ ih =>
    have counts' := counts.movedOn hstep.movedOn
    cases hstep with
    | blockComment => exact ih counts' named
    | blank => exact ih counts' named
    | continuation => exact ih counts' named
    | comment => exact ih counts' named
    | @newline more _ front atCode h =>
      obtain ⟨⟨cursor, hbodies⟩, idle, solid⟩ := newline_found h
      obtain ⟨openers, opened, later⟩ := ih counts' (by rw [idle]; nofun)
      rw [idle] at later
      refine ⟨openers, ?_, List.rel_append ?_ later⟩
      · rwa [List.filter_append, solid]
      · obtain ⟨before, whole, counted⟩ := counts
        have next : (before ++ ['\n']) ++ state.cursor.next.rest = text := by
          rw [rest_next, front, List.tail_cons, ← whole, front, List.append_assoc]
          rfl
        have counted' : start.past (before ++ ['\n']) = state.cursor.next.pos := by
          rw [Position.past_append, counted, Cursor.pos_next front]
          rfl
        exact readBodies_bodyOf next counted' (.inr (by simp)) named hbodies
    | @token c more _ front atCode solid single hash line h =>
      obtain ⟨opener, after, -, opens, rfl⟩ | ⟨-, lexeme, after, hplain, rfl⟩ := token_cases h
      · have opens := readOpener_of_heredoc? opens
        obtain ⟨openers, opened, later⟩ := ih counts' (List.forall_mem_append.2
          ⟨named, List.forall_mem_singleton.2 (closedBy_nil_of_readOpener opens)⟩)
        obtain ⟨before, whole, counted⟩ := counts
        refine ⟨opener :: openers, .cons ⟨before, _, after, whole, counted, opens⟩ opened, ?_⟩
        simpa using later
      · have filled : lexeme ≠ .string [] := by
          obtain bare | ⟨some, -⟩ := plainToken_bare_or_filled front hplain
          · exact bare.ne_hollow
          · rintro rfl
            exact some rfl
        obtain ⟨openers, opened, later⟩ := ih counts' named
        refine ⟨openers, ?_, later⟩
        rw [List.singleton_append, List.filter_cons_of_neg (by simp [isHollow_eq_false, filled])]
        exact opened

theorem mem_plug_of_paired {R : Token → Segments → Prop} (paired : List.Forall₂ R (tokens.filter isHollow) bodies)
    {token : Token} (h : token ∈ plug tokens bodies) :
    token ∈ tokens ∧ isHollow token = false ∨
      ∃ found segments, R found segments ∧ token = ⟨.string segments, found.pos, found.spaced⟩ := by
  induction tokens generalizing bodies with
  | nil => contradiction
  | cons first more ih =>
    by_cases hollow : first.lexeme = .string []
    · obtain ⟨lexeme, pos, spaced⟩ := first
      subst hollow
      rw [List.filter_cons_of_pos rfl] at paired
      cases paired with
      | cons own later =>
        obtain rfl | member := List.mem_cons.1 h
        · exact .inr ⟨_, _, own, rfl⟩
        · exact (ih later member).imp_left fun among => ⟨List.mem_cons_of_mem _ among.1, among.2⟩
    · have filled := isHollow_eq_false hollow
      rw [List.filter_cons_of_neg (by simp [filled])] at paired
      rw [plug_cons_of_ne hollow] at h
      obtain rfl | member := List.mem_cons.1 h
      · exact .inl ⟨List.mem_cons_self, filled⟩
      · exact (ih paired member).imp_left fun among => ⟨List.mem_cons_of_mem _ among.1, among.2⟩

end Scan

/-! Tokens with their literals -/

/-- The body of a literal in a text. `front` stands before the literal and `before` before its body, which for a
heredoc is what is left of its lines. -/
inductive Encloses (text front : List Char) : List Char → List Char → Bool → Prop
  | within {sign body behind : List Char} {marks : Literal.Delimiters} : Literal.Opening sign marks →
      front ++ sign ++ body ++ marks.closer :: behind = text → Encloses text front (front ++ sign) body marks.embeds
  | below {sign before below after behind : List Char} {lines kept : List (List Char)} {opener : Heredoc.Opener} :
      front ++ sign = text → Heredoc.readOpener sign = some (opener, after) →
      before ++ lines.flatten ++ below = text → before.getLast? = some '\n' →
      Heredoc.takeBody opener [] (lines.flatten ++ below) = some (lines, behind) → Scan.Unindented lines kept →
      (opener.margin ≠ .trimmed → kept = lines) → Encloses text front before kept.flatten opener.embeds

/-- A token is spelled in a text where it stands, and its segments are those of a body that the text encloses. -/
def Token.ReadFrom (code : Body.Reader) (start : Position) (text : List Char) (token : Token) : Prop :=
  ∃ front spelling behind, front ++ spelling ++ behind = text ∧ start.past front = token.pos ∧
    token.lexeme.Spelled spelling ∧
    (token.lexeme.segments ≠ [] → ∃ before body embeds closer, Encloses text front before body embeds ∧
      Literal.segments code embeds closer (start.past before) body = .ok token.lexeme.segments)

namespace Scan

theorem Step.readFrom (h : Step code state found) (counts : state.cursor.Counts start text) :
    ∀ token ∈ found.tokens, isHollow token = false → token.ReadFrom code start text := by
  obtain ⟨before, whole, counted⟩ := counts
  cases h with
  | blockComment | blank | continuation | comment => nofun
  | @newline more _ front atCode h =>
    obtain ⟨bodies, cursor, -, rfl⟩ := newline_cases h
    split
    · nofun
    · refine List.forall_mem_singleton.2 fun _ => ⟨before, ['\n'], more, ?_, counted, rfl, fun some => (some rfl).elim⟩
      rw [List.append_assoc, ← whole, front]
      rfl
  | token front atCode solid single hash line h =>
    obtain ⟨opener, after, -, -, rfl⟩ | ⟨-, lexeme, after, hplain, rfl⟩ := token_cases h
    · exact List.forall_mem_singleton.2 nofun
    · obtain ⟨spelling, taken, spelled⟩ := takes_plainToken front hplain
      rw [← front] at taken
      refine List.forall_mem_singleton.2 fun _ => ⟨before, spelling, after, ?_, counted, spelled, fun some => ?_⟩
      · rw [List.append_assoc, taken, whole]
      obtain bare | ⟨-, sign, marks, body, opening, filled, hfound⟩ := plainToken_bare_or_filled front hplain
      · exact (some bare.segments_eq).elim
      · rw [← counted, ← Position.past_append] at hfound
        have placed : before ++ sign ++ body ++ marks.closer :: after = text := by
          rw [← whole, ← filled, List.append_assoc, List.append_assoc, List.append_assoc]
        exact ⟨_, body, _, _, .within opening placed, hfound⟩

theorem Scans.readFrom (h : Scans code state tokens bodies) (counts : state.cursor.Counts start text) :
    ∀ token ∈ tokens, isHollow token = false → token.ReadFrom code start text := by
  induction h with
  | @done state none _ =>
    obtain ⟨before, whole, counted⟩ := counts
    refine List.forall_mem_singleton.2 fun _ =>
      ⟨before, [], state.cursor.rest, ?_, counted, rfl, fun some => (some rfl).elim⟩
    rw [List.append_nil, whole]
  | next hstep _ ih =>
    exact List.forall_mem_append.2 ⟨hstep.readFrom counts, ih (counts.movedOn hstep.movedOn)⟩

theorem readFrom_of_heredoc {token : Token} {opener : Heredoc.Opener} {segments : Segments}
    (opened : OpenedBy start text token opener) (body : BodyOf code start text opener segments) :
    Token.ReadFrom code start text ⟨.string segments, token.pos, token.spaced⟩ := by
  obtain ⟨front, sign, after, whole, counted, opens⟩ := opened
  obtain ⟨before, rest, lines, behind, whole', line, htake, hfound⟩ := body
  obtain ⟨spelling, taken, spelled⟩ := takes_opener segments opens
  refine ⟨front, spelling, after, by rw [List.append_assoc, taken, whole], counted, spelled, fun _ => ?_⟩
  obtain ⟨kept, same, unindented, untrimmed⟩ := bodyText_eq opener lines
  obtain ⟨ending, enough, -⟩ := eq_of_takeBody htake
  rw [List.reverse_nil, List.nil_append] at enough
  rw [same] at hfound
  rw [enough] at htake whole'
  rw [← List.append_assoc] at whole'
  exact ⟨before, kept.flatten, _, _, .below whole opens whole' line htake unindented untrimmed, hfound⟩

/-- Every token of a text stands there, with its literal. -/
theorem readFrom_tokensWithin {depth : Nat} (read : tokensWithin (depth + 1) text start = .ok tokens) :
    ∀ token ∈ tokens, token.ReadFrom (tokensWithin depth) start text := by
  obtain ⟨found, bodies, scans, rfl⟩ := tokensWithin_eq_ok_iff.1 read
  have counts := Cursor.counts_ofText text start
  obtain ⟨openers, opened, filled⟩ := scans.paired counts nofun
  intro token member
  have paired : List.Forall₂ (fun token segments => ∃ opener, OpenedBy start text token opener ∧
      BodyOf (tokensWithin depth) start text opener segments) (found.filter isHollow) bodies :=
    forall₂_comp opened filled
  obtain ⟨among, solid⟩ | ⟨hollow, segments, ⟨opener, opens, body⟩, rfl⟩ := mem_plug_of_paired paired member
  · exact scans.readFrom counts token among solid
  · exact readFrom_of_heredoc opens body

end Scan

end Formulary
