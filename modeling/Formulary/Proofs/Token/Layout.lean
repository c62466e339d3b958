import Formulary.Proofs.Token.Run

/-! Blanks, comments and empty lines, which the scan passes over without finding a token. -/

namespace Formulary.Scan

open Body Gap Seam

def Blanks (text : List Char) : Prop :=
  ∀ c ∈ text, isSpace c = true

instance : DecidablePred Blanks := fun text =>
  decidable_of_iff (text.all isSpace = true) List.all_eq_true

/-- A comment up to the end of its line, or nothing. -/
def Remark (text : List Char) : Prop :=
  text = [] ∨ ∃ more, text = '#' :: more ∧ '\n' ∉ more

/-- Lines without code. -/
inductive EmptyLines : List Char → Prop
  | nil : EmptyLines []
  | cons {margin remark lines : List Char} : Blanks margin → Remark remark → EmptyLines lines →
      EmptyLines (margin ++ (remark ++ '\n' :: lines))

theorem Blanks.of_cons {c : Char} {blanks : List Char} (h : Blanks (c :: blanks)) :
    isSpace c = true ∧ Blanks blanks :=
  ⟨h c List.mem_cons_self, fun d mem => h d (List.mem_cons_of_mem c mem)⟩

theorem line_ne_of_isSpace {c : Char} (h : isSpace c = true) : c ≠ '\n' := by
  rintro rfl
  contradiction

theorem Blanks.line_notMem {blanks : List Char} (h : Blanks blanks) : '\n' ∉ blanks :=
  fun mem => line_ne_of_isSpace (h _ mem) rfl

theorem Remark.line_notMem {remark : List Char} (h : Remark remark) : '\n' ∉ remark := by
  obtain rfl | ⟨more, rfl, inline⟩ := h
  · exact List.not_mem_nil
  · simpa using inline

/-! What comes next -/

theorem afterLayout_blanks {blanks : List Char} (h : Blanks blanks) (text : List Char) :
    afterLayout false (blanks ++ text) = afterLayout false text := by
  induction blanks with
  | nil => rfl
  | cons c more ih =>
    obtain ⟨blank, others⟩ := h.of_cons
    rw [List.cons_append, afterLayout, if_neg (by decide), if_pos (by rw [blank, Bool.true_or]), ih others]

theorem afterLayout_comment {inline : List Char} (h : '\n' ∉ inline) (text : List Char) :
    afterLayout true (inline ++ '\n' :: text) = afterLayout false text := by
  induction inline with
  | nil => rfl
  | cons c more ih =>
    rw [List.mem_cons, not_or] at h
    rw [List.cons_append, afterLayout, if_pos rfl, decide_eq_true (Ne.symm h.1), ih h.2]

theorem afterLayout_comment_end {inline : List Char} (h : '\n' ∉ inline) : afterLayout true inline = [] := by
  induction inline with
  | nil => rfl
  | cons c more ih =>
    rw [List.mem_cons, not_or] at h
    rw [afterLayout, if_pos rfl, decide_eq_true (Ne.symm h.1), ih h.2]

theorem afterLayout_remark {remark : List Char} (h : Remark remark) (text : List Char) :
    afterLayout false (remark ++ '\n' :: text) = afterLayout false text := by
  obtain rfl | ⟨more, rfl, inline⟩ := h
  · rfl
  · exact afterLayout_comment inline text

theorem afterLayout_lines {lines : List Char} (h : EmptyLines lines) (text : List Char) :
    afterLayout false (lines ++ text) = afterLayout false text := by
  induction h with
  | nil => rfl
  | @cons margin remark lines blanks comment _ ih =>
    simp only [List.append_assoc, List.cons_append]
    rw [afterLayout_blanks blanks, afterLayout_remark comment, ih]

/-! What the scan does -/

/-- The scan passes from a state to the text in front of another one without finding anything. -/
structure Passes (code : Reader) (state state' : State) (text : List Char) : Prop where
  reaches : Reaches code state [] [] state'
  rest : state'.cursor.rest = text
  last : state'.last = state.last
  pending : state'.pending = state.pending
  spaced : state.spaced = true → state'.spaced = true

variable {code : Reader} {state mid state' : State} {text : List Char}

theorem passes_refl (front : state.cursor.rest = text) : Passes code state state text :=
  ⟨.refl state, front, rfl, rfl, id⟩

theorem Passes.trans {between : List Char} (h : Passes code state mid between) (h' : Passes code mid state' text) :
    Passes code state state' text where
  reaches := h.reaches.trans h'.reaches
  rest := h'.rest
  last := h'.last.trans h.last
  pending := h'.pending.trans h.pending
  spaced := h'.spaced ∘ h.spaced

theorem atCode_of_isSpace {c : Char} {more : List Char} (front : state.cursor.rest = c :: more)
    (blank : isSpace c = true) : AtCode state := by
  refine atCode_of_head front ?_ ?_
  · rintro rfl
    contradiction
  · rintro rfl
    contradiction

/-- A line begins, no heredoc is open, and no token stands for another newline before the next code. -/
structure Lined (state : State) (text : List Char) : Prop where
  rest : state.cursor.rest = text
  fresh : state.cursor.fresh = true
  spaced : state.spaced = true
  pending : state.pending = []
  quiet : (continuesWithDot text || !(state.last.any (!·.isSeparator))) = true

theorem continuesWithDot_eq {text text' : List Char} (same : afterLayout false text' = afterLayout false text) :
    continuesWithDot text' = continuesWithDot text := by
  rw [continuesWithDot, same, continuesWithDot]

theorem next_front {c : Char} (front : state.cursor.rest = c :: text) : state.cursor.next.rest = text := by
  rw [rest_next, front, List.tail_cons]

variable (code)

theorem passes_blanks {blanks : List Char} (h : Blanks blanks) (front : state.cursor.rest = blanks ++ text) :
    ∃ state', Passes code state state' text ∧
      state'.cursor.fresh = (state.cursor.fresh && blanks.isEmpty) := by
  induction blanks generalizing state with
  | nil => exact ⟨state, passes_refl front, (Bool.and_true _).symm⟩
  | cons c more ih =>
    obtain ⟨blank, others⟩ := h.of_cons
    have step : Step code state _ := .blank front (atCode_of_isSpace front blank) blank
    have next : state.cursor.next.rest = more ++ text := by rw [rest_next, front]; rfl
    obtain ⟨state', passes, fresh⟩ := @ih { state with cursor := state.cursor.next, spaced := true } others next
    refine ⟨state', ?_, ?_⟩
    · exact ⟨.next step passes.reaches, passes.rest, passes.last, passes.pending, fun _ => passes.spaced rfl⟩
    · rw [fresh, next_fresh front, decide_eq_false (line_ne_of_isSpace blank)]
      simp

/-- Behind a blank the next token counts as spaced. -/
theorem passes_blanks_spaced {blanks : List Char} (h : Blanks blanks) (some : blanks ≠ [])
    (front : state.cursor.rest = blanks ++ text) : ∃ state', Passes code state state' text ∧ state'.spaced = true := by
  obtain ⟨c, more, rfl⟩ := List.exists_cons_of_ne_nil some
  obtain ⟨blank, others⟩ := h.of_cons
  have step : Step code state _ := .blank front (atCode_of_isSpace front blank) blank
  have next : state.cursor.next.rest = more ++ text := by rw [rest_next, front]; rfl
  obtain ⟨state', passes, -⟩ :=
    @passes_blanks code { state with cursor := state.cursor.next, spaced := true } text more others next
  exact ⟨state', ⟨.next step passes.reaches, passes.rest, passes.last, passes.pending, fun _ => passes.spaced rfl⟩,
    passes.spaced rfl⟩

theorem passes_remark {remark : List Char} (h : Remark remark) (front : state.cursor.rest = remark ++ text)
    (line : remark ≠ [] → ∀ c ∈ text.head?, c = '\n') :
    ∃ state', Passes code state state' text ∧ (remark = [] → state' = state) := by
  obtain rfl | ⟨more, rfl, inline⟩ := h
  · exact ⟨state, passes_refl front, fun _ => rfl⟩
  · have step : Step code state _ := .comment front (atCode_of_head front (by decide) (by decide))
    have behind : state.cursor.rest.dropWhile (· ≠ '\n') = text := by
      rw [front, List.dropWhile_append_of_pos fun c mem => ?_]
      · cases text with
        | nil => rfl
        | cons c others => rw [line (List.cons_ne_nil _ _) c rfl]; rfl
      · have : c ≠ '\n' := by
          rintro rfl
          exact Remark.line_notMem (.inr ⟨more, rfl, inline⟩) mem
        simpa using this
    rw [behind] at step
    refine ⟨_, ⟨.step step, ?_, rfl, rfl, id⟩, nofun⟩
    exact rest_moveTo (front ▸ List.suffix_append _ text)

theorem newline_idle (idle : state.pending = []) :
    newline code state = .ok (if continuesWithDot state.cursor.next.rest || !(state.last.any (!·.isSeparator)) then
        ⟨[], [], { state with cursor := state.cursor.next, spaced := true, pending := [] }⟩
      else ⟨[⟨.newline, state.cursor.pos, false⟩], [],
        { state with cursor := state.cursor.next, spaced := true, pending := [], last := some .newline }⟩) :=
  newline_eq_ok (by rw [idle]; rfl)

theorem passes_newline (front : state.cursor.rest = '\n' :: text) (idle : state.pending = [])
    (quiet : (continuesWithDot text || !(state.last.any (!·.isSeparator))) = true) :
    ∃ state', Passes code state state' text ∧ Lined state' text := by
  have found := newline_idle code idle
  rw [next_front front, if_pos quiet] at found
  have step : Step code state _ := .newline front (atCode_of_head front (by decide) (by decide)) found
  exact ⟨_, ⟨.step step, next_front front, rfl, idle.symm, fun _ => rfl⟩,
    ⟨next_front front, next_fresh front, rfl, rfl, quiet⟩⟩

theorem passes_lines {lines : List Char} (h : EmptyLines lines) (lined : Lined state (lines ++ text)) :
    ∃ state', Passes code state state' text ∧ Lined state' text := by
  induction h generalizing state with
  | nil => exact ⟨state, passes_refl lined.rest, lined⟩
  | @cons margin remark lines blanks comment others ih =>
    have quiet := lined.quiet
    rw [continuesWithDot_eq (afterLayout_lines (.cons blanks comment others) text),
      ← continuesWithDot_eq (afterLayout_lines others text)] at quiet
    have front := lined.rest
    simp only [List.append_assoc, List.cons_append] at front
    obtain ⟨inner, toRemark, -⟩ := passes_blanks code blanks front
    obtain ⟨ended, toEnd, -⟩ := passes_remark code comment toRemark.rest (by simp)
    have moved := toRemark.trans toEnd
    obtain ⟨next, toNext, lined'⟩ := passes_newline code toEnd.rest
      (moved.pending.trans lined.pending) (by rw [moved.last, quiet])
    obtain ⟨state', passes, lined''⟩ := ih lined'
    exact ⟨state', (moved.trans toNext).trans passes, lined''⟩

/-- The ends of two lines are read alike if the same code comes next. -/
theorem newline_alike (code' : Reader) {text' : List Char} (front : state.cursor.rest = '\n' :: text)
    (front' : state'.cursor.rest = '\n' :: text') (idle : state.pending = []) (idle' : state'.pending = [])
    (last : Akin state.last state'.last)
    (same : afterLayout false text' = afterLayout false text) :
    ∃ tokens tokens' next next', Reaches code state tokens [] next ∧ Reaches code' state' tokens' [] next' ∧
      unplaced tokens' = unplaced tokens ∧ Lined next text ∧ Lined next' text' ∧
      Akin next.last next'.last := by
  cases quiet : continuesWithDot text || !(state.last.any (!·.isSeparator)) with
  | true =>
    have quiet' : (continuesWithDot text' || !(state'.last.any (!·.isSeparator))) = true := by
      rw [continuesWithDot_eq same, last.separable, quiet]
    obtain ⟨next, passes, lined⟩ := passes_newline code front idle quiet
    obtain ⟨next', passes', lined'⟩ := passes_newline code' front' idle' quiet'
    exact ⟨[], [], next, next', passes.reaches, passes'.reaches, rfl, lined, lined',
      by rwa [passes.last, passes'.last]⟩
  | false =>
    have loud : ¬(continuesWithDot text || !(state.last.any (!·.isSeparator))) = true := by
      rw [quiet]
      decide
    have loud' : ¬(continuesWithDot text' || !(state'.last.any (!·.isSeparator))) = true := by
      rw [continuesWithDot_eq same, last.separable, quiet]
      decide
    have found := newline_idle code idle
    have found' := newline_idle code' idle'
    rw [next_front front, if_neg loud] at found
    rw [next_front front', if_neg loud'] at found'
    have step : Step code state _ := .newline front (atCode_of_head front (by decide) (by decide)) found
    have step' : Step code' state' _ := .newline front' (atCode_of_head front' (by decide) (by decide)) found'
    exact ⟨_, _, _, _, .step step, .step step', rfl,
      ⟨next_front front, next_fresh front, rfl, rfl, Bool.or_true _⟩,
      ⟨next_front front', next_fresh front', rfl, rfl, Bool.or_true _⟩, .refl _⟩

end Formulary.Scan
