import Formulary.Proofs.Token.Order
import Formulary.Proofs.Token.Sealed

/-!
A scan of a program text alone and one of the text with data behind it, side by side. They stand at the same places and
find the same tokens.
-/

namespace Formulary

/-- The cursor with more text behind what is left. -/
def Cursor.extend (tail : List Char) (cursor : Cursor) : Cursor :=
  { cursor with rest := cursor.rest ++ tail }

namespace Scan

open Body Gap Result Seam Spelling

def State.extend (tail : List Char) (state : State) : State :=
  { state with cursor := state.cursor.extend tail }

def Found.extend (tail : List Char) (found : Found) : Found :=
  { found with state := found.state.extend tail }

/-- What one reads, the other reads as well. -/
def Agrees (code code' : Reader) : Prop :=
  ∀ text pos tokens, code text pos = .ok tokens → code' text pos = .ok tokens

/-- The text that is left is sealed, or all of it was read and a line begins behind it. -/
def Poised (tail : List Char) (cursor : Cursor) : Prop :=
  Sealed tail cursor.rest ∨ cursor.rest = [] ∧ cursor.fresh = true

/-- A state in which a scan does not notice what stands behind its text. No open heredoc ends with an empty line, so
that none ends with the text. -/
structure Ready (tail : List Char) (state : State) : Prop where
  poised : Poised tail state.cursor
  named : ∀ opened ∈ state.pending, opened.1.closedBy [] = false

variable {code code' : Reader} {tail text more after : List Char} {cursor : Cursor} {state : State} {found : Found}
  {c : Char} {lexeme : Lexeme Token}

/-! Segments -/

theorem splitBody_agrees (agrees : Agrees code code') {embeds : Bool} {closer : Option Char} {skip : Nat}
    {pos : Position} {segments : Segments} (h : Literal.splitBody code embeds closer skip pos text = .ok segments) :
    Literal.splitBody code' embeds closer skip pos text = .ok segments := by
  induction text generalizing skip pos segments with
  | nil => exact h
  | cons c more ih =>
    have step {skip : Nat} {pos : Position} {g : Segments → Segments}
        (h : (Literal.splitBody code embeds closer skip pos more).map g = .ok segments) :
        (Literal.splitBody code' embeds closer skip pos more).map g = .ok segments := by
      obtain ⟨inner, hinner, same⟩ := map_eq_ok_iff.1 h
      exact map_eq_ok_iff.2 ⟨inner, ih hinner, same⟩
    unfold Literal.splitBody at h ⊢
    cases skip with
    | succ skip => exact ih h
    | zero =>
      dsimp only at h ⊢
      split at h
      · rename_i line
        rw [if_pos line]
        exact step h
      · rename_i inline
        rw [if_neg inline]
        split at h
        · exact step h
        · split at h
          · rename_i opens
            rw [if_pos opens]
            split at h
            · contradiction
            · obtain ⟨inner, hinner, h⟩ := bind_eq_ok_iff.1 h
              obtain ⟨others, hothers, h⟩ := bind_eq_ok_iff.1 h
              exact bind_eq_ok_iff.2 ⟨inner, agrees _ _ _ hinner, bind_eq_ok_iff.2 ⟨others, ih hothers, h⟩⟩
          · rename_i plain
            rw [if_neg plain]
            exact step h

theorem segments_agrees (agrees : Agrees code code') {embeds : Bool} {closer : Option Char} {pos : Position}
    {segments : Segments} (h : Literal.segments code embeds closer pos text = .ok segments) :
    Literal.segments code' embeds closer pos text = .ok segments := by
  obtain ⟨inner, hinner, same⟩ := map_eq_ok_iff.1 h
  exact map_eq_ok_iff.2 ⟨inner, splitBody_agrees agrees hinner, same⟩

/-! Cursors -/

theorem next_extend (some : cursor.rest ≠ []) : (cursor.extend tail).next = cursor.next.extend tail := by
  obtain ⟨rest, pos, fresh⟩ := cursor
  cases rest with
  | nil => exact (some rfl).elim
  | cons c more => rfl

theorem skip_extend {n : Nat} (within : n ≤ cursor.rest.length) :
    (cursor.extend tail).skip n = (cursor.skip n).extend tail := by
  induction n generalizing cursor with
  | zero => rfl
  | succ n ih =>
    have some : cursor.rest ≠ [] := List.ne_nil_of_length_pos (Nat.lt_of_lt_of_le n.succ_pos within)
    rw [Cursor.skip, next_extend some, ih]
    · rfl
    · rw [rest_next, List.length_tail]
      omega

variable (cursor) in
theorem moveTo_extend (after : List Char) :
    (cursor.extend tail).moveTo (after ++ tail) = (cursor.moveTo after).extend tail := by
  have steps : (cursor.rest ++ tail).length - (after ++ tail).length = cursor.rest.length - after.length := by
    rw [List.length_append, List.length_append, Nat.add_sub_add_right]
  rw [Cursor.moveTo, Cursor.moveTo, ← skip_extend (Nat.sub_le _ _), ← steps]
  rfl

theorem Poised.next (h : Poised tail cursor) : Poised tail cursor.next := by
  obtain ⟨rest, pos, fresh⟩ := cursor
  cases rest with
  | nil => exact h
  | cons c more =>
    obtain sealed | ⟨none, -⟩ := h
    · by_cases line : c = '\n'
      · obtain rfl | sealed := sealed.suffix (List.suffix_cons c more)
        · exact .inr ⟨rfl, decide_eq_true line⟩
        · exact .inl sealed
      · exact .inl (sealed.behind line)
    · cases none

theorem Poised.skip (h : Poised tail cursor) (n : Nat) : Poised tail (cursor.skip n) := by
  induction n generalizing cursor with
  | zero => exact h
  | succ n ih => exact ih h.next

/-! Literals -/

section Literals

variable (agrees : Agrees code code') (data : Data tail)

include data in
theorem body_extend {marks : Literal.Delimiters} {inner : List Char} (h : body marks cursor = .ok (inner, after)) :
    body marks (cursor.extend tail) = .ok (inner, after ++ tail) :=
  body_eq_ok_iff.2 (readBody_data data (body_eq_ok_iff.1 h))

include agrees data in
theorem literal_extend {marks : Literal.Delimiters} {segments : Segments}
    (h : literal code marks cursor = .ok (segments, after)) :
    literal code' marks (cursor.extend tail) = .ok (segments, after ++ tail) := by
  obtain ⟨inner, hread, hsegments⟩ := literal_eq_ok_iff.1 h
  exact literal_eq_ok_iff.2 ⟨inner, readBody_data data hread, segments_agrees agrees hsegments⟩

include agrees data in
theorem delimited_extend {build : Segments → Lexeme Token} {marks : Literal.Delimiters}
    (h : (do let (segments, behind) ← literal code marks cursor; return (build segments, behind)) =
      Except.ok (lexeme, after)) :
    (do let (segments, behind) ← literal code' marks (cursor.extend tail); return (build segments, behind)) =
      Except.ok (lexeme, after ++ tail) := by
  obtain ⟨⟨segments, behind⟩, hliteral, eq⟩ := bind_eq_ok_iff.1 h
  obtain ⟨rfl, rfl⟩ := Prod.mk.inj (pure_eq_ok_iff.1 eq)
  exact bind_eq_ok_iff.2 ⟨_, literal_extend agrees data hliteral, rfl⟩

include agrees data in
theorem quotedSymbol_extend {quote : Char} {start : Position}
    (h : quotedSymbol code quote start cursor = .ok (lexeme, after)) :
    quotedSymbol code' quote start (cursor.extend tail) = .ok (lexeme, after ++ tail) := by
  obtain ⟨segments, name, hliteral, plain, rfl⟩ := quotedSymbol_eq_ok_iff.1 h
  exact quotedSymbol_eq_ok_iff.2 ⟨segments, name, literal_extend agrees data hliteral, plain, rfl⟩

include data in
theorem regexp_extend (sealed : Sealed tail text) (within : cursor.rest <:+ text) {marks : Literal.Delimiters}
    (h : regexp marks cursor = .ok (lexeme, after)) :
    regexp marks (cursor.extend tail) = .ok (lexeme, after ++ tail) := by
  obtain ⟨inner, behind, hread, rfl, rfl⟩ := regexp_eq_ok_iff.1 h
  have last := sealed.suffix ((readBody_suffix hread).trans within)
  refine regexp_eq_ok_iff.2 ⟨inner, behind ++ tail, readBody_data data hread, ?_, ?_⟩
  · rw [takeWhile_behind data last hard_isFlag (by decide)]
  · rw [dropWhile_behind data last hard_isFlag (by decide)]

include agrees data in
theorem percentLiteral_extend (sealed : Sealed tail text) (within : cursor.rest <:+ text) {percent : Percent}
    (h : percentLiteral code percent cursor = .ok (lexeme, after)) :
    percentLiteral code' percent (cursor.extend tail) = .ok (lexeme, after ++ tail) := by
  refine percentLiteral_eq_ok_iff.2 ?_
  cases percentLiteral_eq_ok_iff.1 h with
  | regexp kind h => exact .regexp kind (regexp_extend data sealed within h)
  | words kind h => exact .words kind (body_extend data h)
  | symbols kind h => exact .symbols kind (body_extend data h)
  | string kind h => exact .string kind (literal_extend agrees data h)

include agrees data in
theorem afterColon_extend (front : cursor.rest = ':' :: more) (sealed : Sealed tail more)
    (h : afterColon code cursor = .ok (lexeme, after)) :
    afterColon code' (cursor.extend tail) = .ok (lexeme, after ++ tail) := by
  have here : cursor.rest.tail = more := by rw [front, List.tail_cons]
  have there : (cursor.extend tail).rest.tail = more ++ tail := by
    rw [Cursor.extend, front, List.cons_append, List.tail_cons]
  cases more with
  | nil =>
    obtain rfl | ⟨front, eq⟩ := sealed
    · rw [afterColon_soft here soft_nil] at h
      rw [afterColon_soft there soft_nil]
      obtain ⟨rfl, rfl⟩ := Prod.mk.inj (Except.ok.inj h)
      rfl
    · simp at eq
  | cons c others =>
    rw [List.cons_append] at there
    have skip : (cursor.extend tail).skip 2 = (cursor.skip 2).extend tail := skip_extend (by simp [front])
    by_cases colon : c = ':'
    · subst colon
      rw [afterColon_colon here] at h
      rw [afterColon_colon there]
      obtain ⟨rfl, rfl⟩ := Prod.mk.inj (Except.ok.inj h)
      rfl
    by_cases quote : c = '"' ∨ c = '\''
    · rw [afterColon_quote here quote] at h
      rw [afterColon_quote there quote, skip]
      exact quotedSymbol_extend agrees data h
    rw [afterColon_other here colon quote] at h
    rw [afterColon_other there colon quote]
    have length : symbolLength (c :: (others ++ tail)) = symbolLength (c :: others) :=
      sealed.read_append fun line => symbolLength_append line.soft
    have within := symbolLength_le (c :: others)
    rw [length, ← List.cons_append, List.take_append_of_le_length within, List.drop_append_of_le_length within]
    split at h
    · rename_i letter
      rw [if_pos letter]
      obtain ⟨rfl, rfl⟩ := Prod.mk.inj (Except.ok.inj h)
      rfl
    · rename_i letter
      rw [if_neg letter]
      obtain ⟨rfl, rfl⟩ := Prod.mk.inj (Except.ok.inj h)
      rfl

end Literals

/-! Tokens -/

/-- What a reader takes off a text, and where the text goes on. -/
theorem elim_extend {found found' : Option (Lexeme Token × List Char)} {error : Malformed}
    (extended : found' = found.map fun (lexeme, behind) => (lexeme, behind ++ tail))
    (h : found.elim (Except.error error) Except.ok = Except.ok (lexeme, after)) :
    found'.elim (Except.error error) Except.ok = Except.ok (lexeme, after ++ tail) := by
  rw [extended, elim_eq_ok_iff.1 h]
  rfl

section Tokens

variable (agrees : Agrees code code') (data : Data tail) (front : state.cursor.rest = c :: more)
  (sealed : Sealed tail (c :: more)) (inline : c ≠ '\n')
include front sealed inline

theorem operandExpected_extend : operandExpected (state.extend tail) = operandExpected state := by
  have behind : (state.extend tail).cursor.rest.tail.head? = state.cursor.rest.tail.head? := by
    have there : (state.extend tail).cursor.rest.tail = more ++ tail := by
      simp only [State.extend, Cursor.extend, front, List.cons_append, List.tail_cons]
    rw [there, front, List.tail_cons, (sealed.behind inline).head_append]
  unfold operandExpected
  rw [behind]
  rfl

theorem heredoc?_extend :
    heredoc? (state.extend tail) = (heredoc? state).map fun (opener, behind) => (opener, behind ++ tail) := by
  have there : (state.extend tail).cursor.rest = c :: more ++ tail := by
    simp only [State.extend, Cursor.extend, front]
  unfold heredoc?
  rw [operandExpected_extend front sealed inline, there, front]
  split
  · exact sealed.take?_append fun line => readOpener_append line.soft
  · rfl

include agrees data in
theorem plainToken_extend (h : plainToken code state c = .ok (lexeme, after)) :
    plainToken code' (state.extend tail) c = .ok (lexeme, after ++ tail) := by
  have some : state.cursor.rest ≠ [] := by simp [front]
  have behind := sealed.behind inline
  have here : state.cursor.rest.tail = more := by rw [front, List.tail_cons]
  have rest : (state.extend tail).cursor.rest = c :: more ++ tail := by
    simp only [State.extend, Cursor.extend, front]
  have there : (state.extend tail).cursor.rest.tail = more ++ tail := by
    rw [rest, List.cons_append, List.tail_cons]
  have next : (state.extend tail).cursor.next = state.cursor.next.extend tail := next_extend some
  have within : state.cursor.next.rest <:+ c :: more := by
    rw [rest_next, here]
    exact List.suffix_cons c more
  have signs {error : Malformed} (h : (sign state.cursor.rest).elim (.error error) .ok = Except.ok (lexeme, after)) :
      (sign (state.extend tail).cursor.rest).elim (.error error) .ok = Except.ok (lexeme, after ++ tail) := by
    refine elim_extend ?_ h
    rw [rest, front]
    exact sealed.take?_append fun line => sign_append line.soft
  cases lead c with
  | digit digit =>
    rw [plainToken_digit digit, front] at h
    have found : number (c :: more) = (lexeme, after) := Except.ok.inj h
    rw [plainToken_digit digit, rest, sealed.take_append fun line => number_append line.soft, found]
  | letter digit letter =>
    rw [plainToken_letter digit letter, front] at h
    have found : word state.last (c :: more) = (lexeme, after) := Except.ok.inj h
    have last : (state.extend tail).last = state.last := rfl
    rw [plainToken_letter digit letter, rest, last, sealed.take_append fun line => word_append line.soft state.last,
      found]
  | sigil =>
    rw [plainToken_sigil, here] at h
    rw [plainToken_sigil, there]
    exact elim_extend (behind.take?_append fun line => instanceName_append line.soft) h
  | dollar =>
    rw [plainToken_dollar, here] at h
    rw [plainToken_dollar, there]
    exact elim_extend behind.globalName_append h
  | quote quote =>
    rw [plainToken_quote quote] at h ⊢
    rw [next]
    exact delimited_extend agrees data h
  | back =>
    rw [plainToken_back] at h ⊢
    rw [next]
    exact delimited_extend agrees data h
  | colon => exact afterColon_extend agrees data front behind h
  | slash =>
    rw [plainToken_slash] at h ⊢
    rw [operandExpected_extend front sealed inline, next]
    by_cases operand : operandExpected state = true
    · rw [if_pos operand] at h ⊢
      exact regexp_extend data sealed within h
    · rw [if_neg operand] at h ⊢
      exact signs h
  | percent =>
    rw [plainToken_percent, here] at h
    rw [plainToken_percent, operandExpected_extend front sealed inline, there, behind.percent_append]
    by_cases operand : operandExpected state = true
    · rw [if_pos operand] at h ⊢
      split at h
      · rename_i opened read
        have opening : opened.opening ≤ state.cursor.rest.length := by
          rw [front]
          exact opening_le read
        have skip : (state.extend tail).cursor.skip opened.opening = (state.cursor.skip opened.opening).extend tail :=
          skip_extend opening
        rw [skip]
        refine percentLiteral_extend agrees data sealed ?_ h
        rw [rest_skip, front]
        exact List.drop_suffix _ _
      · exact signs h
    · rw [if_neg operand] at h ⊢
      exact signs h
  | sign other =>
    rw [plainToken_sign other] at h ⊢
    exact signs h

include agrees data in
theorem token_extend (h : token code state c = .ok found) :
    token code' (state.extend tail) c = .ok (found.extend tail) := by
  have taken (lexeme : Lexeme Token) (after : List Char) :
      (state.extend tail).taken lexeme (after ++ tail) = (state.taken lexeme after).extend tail := by
    simp only [State.taken, State.extend, moveTo_extend]
  obtain ⟨opener, after, rfl, opens, rfl⟩ | ⟨closed, lexeme, after, hplain, rfl⟩ := token_cases h
  · have opens' : heredoc? (state.extend tail) = some (opener, after ++ tail) := by
      rw [heredoc?_extend front sealed inline, opens]
      rfl
    rw [token_of_heredoc opens', taken]
    rfl
  · have closed' (less : c = '<') : heredoc? (state.extend tail) = none := by
      rw [heredoc?_extend front sealed inline, closed less]
      rfl
    rw [token_of_plain closed' (plainToken_extend agrees data front sealed inline hplain), taken]
    rfl

end Tokens

/-! Heredocs -/

theorem readBodies_extend (agrees : Agrees code code') (h : cursor.rest = [] ∨ Sealed tail cursor.rest)
    {pending : List (Heredoc.Opener × Position)} (named : ∀ opened ∈ pending, opened.1.closedBy [] = false)
    {bodies : List Segments} {behind : Cursor} (read : readBodies code cursor pending = .ok (bodies, behind)) :
    readBodies code' (cursor.extend tail) pending = .ok (bodies, behind.extend tail) := by
  induction pending generalizing cursor bodies with
  | nil =>
    obtain ⟨rfl, rfl⟩ := Prod.mk.inj (Except.ok.inj read)
    rfl
  | cons opened more ih =>
    obtain ⟨opener, pos⟩ := opened
    obtain ⟨closing, others⟩ := List.forall_mem_cons.1 named
    obtain ⟨lines, rest, body, bodies', htake, hbody, hmore, rfl⟩ := readBodies_cons_iff.1 read
    -- This heredoc has a closing line, so the text cannot be over before it.
    have sealed : Sealed tail cursor.rest := by
      refine h.resolve_left fun none => ?_
      rw [none] at htake
      simp [Heredoc.takeBody, closing] at htake
    have within := takeBody_suffix htake
    refine readBodies_cons_iff.2 ⟨lines, rest ++ tail, body, bodies', takeBody_sealed sealed closing htake,
      segments_agrees agrees hbody, ?_, rfl⟩
    rw [moveTo_extend]
    refine ih ?_ others hmore
    rw [rest_moveTo within]
    exact sealed.suffix within

theorem Poised.lined (h : Poised tail cursor) : cursor.rest = [] ∨ Sealed tail cursor.rest :=
  h.elim .inr fun stop => .inl stop.1

theorem newline_extend (agrees : Agrees code code') (data : Data tail) (ready : Ready tail state)
    (some : state.cursor.rest ≠ []) (h : newline code state = .ok found) :
    newline code' (state.extend tail) = .ok (found.extend tail) := by
  obtain ⟨bodies, cursor, hbodies, rfl⟩ := newline_cases h
  obtain ⟨n, moved⟩ := readBodies_movedOn hbodies
  have poised : Poised tail cursor := moved ▸ ready.poised.next.skip n
  have next : (state.extend tail).cursor.next = state.cursor.next.extend tail := next_extend some
  have hbodies' : readBodies code' (state.extend tail).cursor.next (state.extend tail).pending =
      .ok (bodies, cursor.extend tail) := by
    rw [next]
    exact readBodies_extend agrees ready.poised.next.lined ready.named hbodies
  have dot : continuesWithDot (cursor.extend tail).rest = continuesWithDot cursor.rest := by
    obtain none | sealed := poised.lined
    · rw [Cursor.extend, none]
      exact continuesWithDot_data data
    · exact continuesWithDot_sealed data sealed
  rw [newline_eq_ok hbodies', dot]
  have last : (state.extend tail).last = state.last := rfl
  rw [last]
  split <;> rfl

/-! Steps -/

theorem Ready.sealed (ready : Ready tail state) (some : state.cursor.rest ≠ []) : Sealed tail state.cursor.rest :=
  ready.poised.resolve_right fun stop => some stop.1

theorem atBlockComment_extend (sealed : Sealed tail state.cursor.rest) :
    atBlockComment (state.extend tail) = atBlockComment state := by
  have begins := sealed.startsWith_append "=begin" (by decide)
  simp only [atBlockComment, State.extend, Cursor.extend, begins]

theorem atData_extend (sealed : Sealed tail state.cursor.rest) : atData (state.extend tail) = atData state := by
  simp only [atData, State.extend, Cursor.extend, sealed.atDataMark_append]

theorem AtCode.extend (sealed : Sealed tail state.cursor.rest) (h : AtCode state) : AtCode (state.extend tail) :=
  ⟨(atBlockComment_extend sealed).trans h.1, (atData_extend sealed).trans h.2⟩

/-- With data behind the text the same step is taken. -/
theorem Step.extend (agrees : Agrees code code') (data : Data tail) (ready : Ready tail state)
    (h : Step code state found) : Step code' (state.extend tail) (found.extend tail) := by
  have rest {text : List Char} (front : state.cursor.rest = text) : (state.extend tail).cursor.rest = text ++ tail := by
    simp only [State.extend, Cursor.extend, front]
  have moved (after : List Char) :
      (state.extend tail).cursor.moveTo (after ++ tail) = (state.cursor.moveTo after).extend tail :=
    moveTo_extend state.cursor after
  cases h with
  | @blockComment after some begins behind =>
    have sealed := ready.sealed some
    have step : Step code' (state.extend tail) _ := .blockComment (by simp [rest rfl, some])
      ((atBlockComment_extend sealed).trans begins) (afterBlockComment_sealed sealed behind)
    rw [moved] at step
    exact step
  | blank front atCode blank =>
    have some : state.cursor.rest ≠ [] := by simp [front]
    have step : Step code' (state.extend tail) _ := .blank (rest front) (atCode.extend (ready.sealed some)) blank
    rw [show (state.extend tail).cursor.next = state.cursor.next.extend tail from next_extend some] at step
    exact step
  | continuation front atCode =>
    have some : state.cursor.rest ≠ [] := by simp [front]
    have step : Step code' (state.extend tail) _ := .continuation (rest front) (atCode.extend (ready.sealed some))
    have two : 2 ≤ state.cursor.rest.length := by simp [front]
    rw [show (state.extend tail).cursor.skip 2 = (state.cursor.skip 2).extend tail from skip_extend two] at step
    exact step
  | comment front atCode =>
    have sealed := ready.sealed (by simp [front])
    have step : Step code' (state.extend tail) _ := .comment (rest front) (atCode.extend sealed)
    rw [rest rfl, sealed.dropWhile_append (by decide), moved] at step
    exact step
  | newline front atCode h =>
    have some : state.cursor.rest ≠ [] := by simp [front]
    exact .newline (rest front) (atCode.extend (ready.sealed some)) (newline_extend agrees data ready some h)
  | @token c more _ front atCode solid single hash line h =>
    have sealed := ready.sealed (by simp [front])
    have atCode' := atCode.extend sealed
    rw [front] at sealed
    have single' : ¬(c = '\\' ∧ (more ++ tail).head? = some '\n') := by
      rwa [(sealed.behind line).head_append]
    exact .token (rest front) atCode' solid single' hash line (token_extend agrees data front sealed line h)

theorem Step.named (named : ∀ opened ∈ state.pending, opened.1.closedBy [] = false) (h : Step code state found) :
    ∀ opened ∈ found.state.pending, opened.1.closedBy [] = false := by
  cases h with
  | blockComment | blank | continuation | comment => exact named
  | newline front atCode h =>
    obtain ⟨bodies, cursor, -, rfl⟩ := newline_cases h
    split <;> exact nofun
  | token front atCode solid single hash line h =>
    obtain ⟨opener, after, -, opens, rfl⟩ | ⟨-, lexeme, after, -, rfl⟩ := token_cases h
    · refine List.forall_mem_append.2 ⟨named, List.forall_mem_singleton.2 ?_⟩
      unfold heredoc? at opens
      split at opens
      · exact closedBy_nil_of_readOpener opens
      · contradiction
    · exact named

theorem Step.ready (ready : Ready tail state) (h : Step code state found) : Ready tail found.state := by
  obtain ⟨n, moved⟩ := h.movedOn
  exact ⟨moved ▸ ready.poised.skip n, h.named ready.named⟩

/-! Scans -/

/-- Where a scan comes to the end of its text, it comes to the data behind it. -/
theorem step_none_extend (data : Data tail) (ready : Ready tail state) (h : step code state = .ok none) :
    step code' (state.extend tail) = .ok none := by
  refine step_eq_none_iff.2 ?_
  obtain none | ⟨plain, ends⟩ := step_eq_none_iff.1 h
  · have rest : (state.extend tail).cursor.rest = tail := by
      simp only [State.extend, Cursor.extend, none, List.nil_append]
    obtain rfl | marked := data
    · exact .inl rest
    · -- The last newline was read, so the mark stands at the front of a line and ends the scan.
      have fresh : state.cursor.fresh = true := by
        obtain (rfl | ⟨front, eq⟩) | ⟨-, fresh⟩ := ready.poised
        · contradiction
        · simp [none] at eq
        · exact fresh
      have plain : startsWith tail "=begin" = false := Data.startsWith_eq (.inr marked) (by decide)
      refine .inr ⟨?_, ?_⟩
      · rw [atBlockComment, rest, plain, Bool.and_false]
      · rw [atData, rest, marked, Bool.and_true]
        exact fresh
  · have some : state.cursor.rest ≠ [] := by
      intro none
      simp [atData, none, atDataMark, startsWith] at ends
    have sealed := ready.sealed some
    exact .inr ⟨(atBlockComment_extend sealed).trans plain, (atData_extend sealed).trans ends⟩

theorem Scans.extend (agrees : Agrees code code') (data : Data tail) {tokens : List Token} {bodies : List Segments}
    (ready : Ready tail state) (h : Scans code state tokens bodies) :
    Scans code' (state.extend tail) tokens bodies := by
  induction h with
  | done none idle => exact .done (step_none_extend data ready none) idle
  | @next state found tokens bodies hstep _ ih =>
    have onward : Scans code' (state.extend tail) ((found.extend tail).tokens ++ tokens) _ :=
      .next (hstep.extend agrees data ready) (ih (hstep.ready ready))
    exact onward

/-- The tokens of a text do not change if it is nested deeper than needed, or data comes to stand behind it. -/
theorem tokensWithin_append (data : Data tail) (sealed : Sealed tail text) {depth depth' : Nat} (deep : depth ≤ depth')
    {pos : Position} {tokens : List Token} (h : tokensWithin depth text pos = .ok tokens) :
    tokensWithin depth' (text ++ tail) pos = .ok tokens := by
  induction depth generalizing depth' tail text pos tokens with
  | zero => contradiction
  | succ depth ih =>
    obtain ⟨depth', rfl⟩ := Nat.exists_eq_succ_of_ne_zero (Nat.ne_zero_of_lt deep)
    -- Embedded code lies within its string, so it is scanned with nothing behind it.
    have agrees : Agrees (tokensWithin depth) (tokensWithin depth') := by
      intro text pos tokens h
      have deeper := ih data_nil (.nil text) (Nat.le_of_succ_le_succ deep) h
      rwa [List.append_nil] at deeper
    have ready : Ready tail (.ofText text pos) := ⟨.inl sealed, nofun⟩
    obtain ⟨found, bodies, scans, rfl⟩ := tokensWithin_eq_ok_iff.1 h
    exact tokensWithin_eq_ok_iff.2 ⟨found, bodies, scans.extend agrees data ready, rfl⟩

end Scan

end Formulary
