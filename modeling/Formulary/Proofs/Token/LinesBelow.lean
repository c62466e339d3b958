import Formulary.Proofs.Token.HeredocText
import Formulary.Proofs.Token.Inline
import Formulary.Proofs.Token.Extension

/-!
A text alone and the text with more lines below it, side by side. The scan of the longer text finds the tokens of the
text, a newline if one ends a statement there, and then the tokens of the lines below. The end of the text is the end of
a line only if a heredoc or a block comment ends with it; then its newline is read already.
-/

namespace Formulary

open Gap Seam

variable {text after : List Char}

/-- What is left of a text and the lines below it, where `after` is left of the text. If the end of the text was read as
that of a line, its newline is not left. -/
def Gap.leftAbove (past : Bool) (after below : List Char) : List Char :=
  if past then below else after ++ '\n' :: below

/-- Whether a line is the mark of data. `fresh` says that a line begins here. -/
def Gap.marked (fresh : Bool) : List Char → Bool
  | [] => false
  | c :: rest => fresh && atDataMark (c :: rest) || marked (c = '\n') rest

theorem Seam.line_newline (below : List Char) : Line ('\n' :: below) :=
  fun _ head => (Option.some.inj head).symm

theorem Gap.afterBlockComment_below {fresh ending : Bool} (begins : fresh = true → ending = false)
    (h : afterBlockComment fresh ending text = some after) :
    ∃ past, (past = true → after = []) ∧ ∀ below,
      afterBlockComment fresh ending (text ++ '\n' :: below) = some (leftAbove past after below) := by
  induction text generalizing fresh ending with
  | nil =>
    cases ending with
    | false => contradiction
    | true =>
      cases fresh with
      | true => exact absurd (begins rfl) Bool.noConfusion
      | false => exact ⟨true, fun _ => (Option.some.inj h).symm, fun below => rfl⟩
  | cons c more ih =>
    have same (below : List Char) : startsWith (c :: (more ++ '\n' :: below)) "=end" = startsWith (c :: more) "=end" :=
      startsWith_append (line_newline below).soft "=end" (by decide) (c :: more)
    simp only [List.cons_append, afterBlockComment, same]
    rw [afterBlockComment] at h
    generalize (if fresh then startsWith (c :: more) "=end" else ending) = last at h ⊢
    by_cases line : c = '\n'
    · simp only [if_pos line] at h ⊢
      cases last with
      | true =>
        obtain rfl := Option.some.inj h
        exact ⟨false, Bool.noConfusion, fun below => rfl⟩
      | false => exact ih (fun _ => rfl) h
    · simp only [if_neg line] at h ⊢
      exact ih Bool.noConfusion h

theorem Heredoc.takeBody_below {opener : Opener} {line : List Char} {lines : List (List Char)}
    (h : takeBody opener line text = some (lines, after)) :
    ∃ past, (past = true → after = []) ∧ ∀ below,
      takeBody opener line (text ++ '\n' :: below) = some (lines, leftAbove past after below) := by
  induction text generalizing line lines with
  | nil =>
    rw [takeBody] at h
    split at h
    · rename_i closed
      obtain ⟨rfl, rfl⟩ := Prod.mk.inj (Option.some.inj h)
      refine ⟨true, fun _ => rfl, fun below => ?_⟩
      rw [List.nil_append, takeBody, if_pos rfl, if_pos closed]
      rfl
    · contradiction
  | cons c more ih =>
    simp only [List.cons_append, takeBody]
    rw [takeBody] at h
    split at h
    · rename_i newline
      simp only [if_pos newline]
      split at h
      · rename_i closed
        obtain ⟨rfl, rfl⟩ := Prod.mk.inj (Option.some.inj h)
        exact ⟨false, Bool.noConfusion, fun below => by rw [if_pos closed]; rfl⟩
      · rename_i open'
        obtain ⟨⟨found, behind⟩, hfound, eq⟩ := Option.map_eq_some_iff.1 h
        obtain ⟨rfl, rfl⟩ := Prod.mk.inj eq
        obtain ⟨past, all, there⟩ := ih hfound
        exact ⟨past, all, fun below => by rw [if_neg open', there]; rfl⟩
    · rename_i inline
      simp only [if_neg inline]
      exact ih h

theorem dropWhile_below (below : List Char) :
    (text ++ '\n' :: below).dropWhile (· ≠ '\n') = text.dropWhile (· ≠ '\n') ++ '\n' :: below := by
  rw [List.dropWhile_append]
  split
  · rename_i none
    rw [List.isEmpty_iff.1 none]
    rfl
  · rfl

/-- A text that no code carries on with a dot is no such code below other lines either. -/
theorem Gap.continuesWithDot_below {below : List Char} (undotted : continuesWithDot below = false) (text : List Char) :
    continuesWithDot (text ++ '\n' :: below) = continuesWithDot text := by
  have layout (inComment : Bool) : afterLayout inComment (text ++ '\n' :: below) = afterLayout false below ∧
        afterLayout inComment text = [] ∨
      afterLayout inComment (text ++ '\n' :: below) = afterLayout inComment text ++ '\n' :: below := by
    induction text generalizing inComment with
    | nil => cases inComment <;> exact .inl ⟨rfl, rfl⟩
    | cons c more ih =>
      rw [List.cons_append, afterLayout, afterLayout]
      split
      · exact ih _
      · split
        · exact ih _
        · split
          · exact ih _
          · exact .inr rfl
  unfold continuesWithDot at undotted ⊢
  obtain ⟨same, none⟩ | same := layout false
  · rw [same, none]
    exact undotted
  · have soft := (line_newline below).soft
    rw [same]
    dsimp only
    rw [startsWith_append soft "&." (by decide), startsWith_append soft "." (by decide),
      startsWith_append soft ".." (by decide)]

namespace Scan

open Body Result Spelling

variable {code code' : Reader} {bound : Nat} {below : List Char} {past : Bool} {cursor cursor' : Cursor}
  {state state' last last' : State} {found : Found} {tokens : List Token} {bodies : List Segments}

/-- A cursor in a text alone and one at the same place in the text with lines below it. -/
structure CursorAbove (past : Bool) (below : List Char) (cursor cursor' : Cursor) : Prop where
  front : cursor'.rest = leftAbove past cursor.rest below
  fresh : cursor'.fresh = (past || cursor.fresh)

theorem CursorAbove.moveTo (h : CursorAbove false below cursor cursor') {after : List Char}
    (suffix : after <:+ cursor.rest) (whole : past = true → after = []) :
    CursorAbove past below (cursor.moveTo after) (cursor'.moveTo (leftAbove past after below)) := by
  have front : cursor.rest = cursor.rest ++ [] := (List.append_nil _).symm
  have left : (cursor.moveTo after).rest = after := rest_moveTo suffix
  cases past with
  | false =>
    have fresh : (cursor'.moveTo (after ++ '\n' :: below)).fresh = (cursor.moveTo (after ++ [])).fresh :=
      moveTo_fresh_eq front h.front (.inr h.fresh)
    rw [List.append_nil] at fresh
    refine ⟨?_, fresh⟩
    rw [left]
    exact rest_moveTo_append h.front suffix
  | true =>
    obtain rfl := whole rfl
    have line : cursor'.rest = cursor.rest ++ ['\n'] ++ below := h.front.trans (by simp [leftAbove])
    have moved := Cursor.moveTo_line line
    exact ⟨congrArg Cursor.rest moved, congrArg Cursor.fresh moved⟩

/-- The bodies that are read in a text are read with lines below it too. -/
def BodiesBelow (code : Reader) (bound : Nat) (first past : Bool) (cursor behind : Cursor)
    (pending : List (Heredoc.Opener × Position)) (bodies : List Segments) : Prop :=
  ∀ code' below cursor' pending', Refines bound code code' → CursorAbove first below cursor cursor' →
    pending'.map Prod.fst = pending.map Prod.fst → ∃ bodies' behind',
      readBodies code' cursor' pending' = .ok (bodies', behind') ∧
      bodies'.map unplacedSegments = bodies.map unplacedSegments ∧ CursorAbove past below behind behind'

theorem bodiesBelow_nil : BodiesBelow code bound past past cursor cursor [] [] := by
  intro code' below cursor' pending' refines above openers
  obtain rfl : pending' = [] := by simpa using openers
  exact ⟨[], cursor', rfl, rfl, above⟩

variable {behind : Cursor} {pending : List (Heredoc.Opener × Position)}

/-- Where the text is over no heredoc ends: each of them has a name. -/
theorem pending_eq_nil (named : ∀ opened ∈ pending, opened.1.closedBy [] = false) (spent : cursor.rest = [])
    (h : readBodies code cursor pending = .ok (bodies, behind)) : pending = [] := by
  cases pending with
  | nil => rfl
  | cons opened more =>
    obtain ⟨opener, pos⟩ := opened
    obtain ⟨lines, rest, _, _, htake, -⟩ := readBodies_cons_iff.1 h
    have open' : opener.closedBy [] = false := named (opener, pos) List.mem_cons_self
    rw [spent, Heredoc.takeBody, List.reverse_nil, open'] at htake
    contradiction

/-- The last one of the bodies that are read in a text may end with it. -/
theorem readBodies_below (named : ∀ opened ∈ pending, opened.1.closedBy [] = false)
    (short : cursor.rest.length ≤ bound) (h : readBodies code cursor pending = .ok (bodies, behind)) :
    ∃ past, (past = true → behind.rest = []) ∧ BodiesBelow code bound false past cursor behind pending bodies := by
  induction pending generalizing cursor bodies with
  | nil =>
    obtain ⟨rfl, rfl⟩ := Prod.mk.inj (Except.ok.inj h)
    exact ⟨false, nofun, bodiesBelow_nil⟩
  | cons opened more ih =>
    obtain ⟨opener, pos⟩ := opened
    obtain ⟨-, others⟩ := List.forall_mem_cons.1 named
    obtain ⟨lines, rest, body, bodies, htake, hbody, hmore, rfl⟩ := readBodies_cons_iff.1 h
    have suffix := takeBody_suffix htake
    have left : (cursor.moveTo rest).rest = rest := rest_moveTo suffix
    obtain ⟨first, whole, taken⟩ := Heredoc.takeBody_below htake
    have within : (opener.bodyText lines).length ≤ bound := by
      have := length_of_takeBody htake
      have := length_bodyText_le opener lines
      simp only [List.length_nil] at *
      omega
    have lined : ∃ past, (past = true → behind.rest = []) ∧
        BodiesBelow code bound first past (cursor.moveTo rest) behind more bodies := by
      cases first with
      | false =>
        refine ih others ?_ hmore
        rw [left]
        exact Nat.le_trans suffix.length_le short
      | true =>
        have spent := left.trans (whole rfl)
        obtain rfl := pending_eq_nil others spent hmore
        obtain ⟨rfl, rfl⟩ := Prod.mk.inj (Except.ok.inj hmore)
        exact ⟨true, fun _ => spent, bodiesBelow_nil⟩
    obtain ⟨past, spent, onward⟩ := lined
    refine ⟨past, spent, fun code' below cursor' pending' refines above openers => ?_⟩
    obtain ⟨⟨opener', pos'⟩, more', rfl⟩ : ∃ first others, pending' = first :: others :=
      List.exists_cons_of_ne_nil (by rintro rfl; simp at openers)
    obtain ⟨rfl, openers'⟩ : opener' = opener ∧ more'.map Prod.fst = more.map Prod.fst := by simpa using openers
    obtain ⟨body', hbody', same⟩ := segments_refines refines ⟨cursor'.pos.line, 1⟩ within hbody
    obtain ⟨bodies', behind', hmore', same', above'⟩ :=
      onward code' below _ more' refines (above.moveTo suffix whole) openers'
    refine ⟨body' :: bodies', behind', ?_, by rw [List.map_cons, List.map_cons, same, same'], above'⟩
    exact readBodies_cons_iff.2 ⟨lines, _, body', bodies', above.front ▸ taken below, hbody', hmore', rfl⟩

/-! Steps -/

/-- A state in a text alone and one in the text with lines below it. They are twins as long as the end of the text was
not read as that of a line. -/
inductive Above (below : List Char) (state state' : State) : Bool → Prop
  | line : Twin [] ('\n' :: below) state.cursor.rest state state' → Above below state state' false
  | past : state'.cursor.rest = below → state'.cursor.fresh = true → Akin state.last state'.last →
      state'.pending.map Prod.fst = state.pending.map Prod.fst → Above below state state' true

theorem parting_below (below : List Char) : Parting [] ('\n' :: below) :=
  ⟨nofun, (line_newline below).soft⟩

theorem CursorAbove.above (h : CursorAbove past below state.cursor state'.cursor) (spaced : state'.spaced = state.spaced)
    (last : Akin state.last state'.last) (pending : state'.pending.map Prod.fst = state.pending.map Prod.fst) :
    Above below state state' past := by
  cases past with
  | false => exact .line ⟨(List.append_nil _).symm, h.front, .inl h.fresh, spaced, last, pending⟩
  | true => exact .past h.front h.fresh last pending

/-- No token is a backslash at the end of a text. -/
theorem token_backslash_end (front : state.cursor.rest = ['\\']) : token code state '\\' ≠ .ok found := by
  intro h
  obtain ⟨opener, after, less, -⟩ | ⟨-, lexeme, after, hplain, -⟩ := token_cases h
  · contradiction
  · have signless : sign ['\\'] = none := by decide
    have other : plainToken code state '\\' =
        (sign state.cursor.rest).elim (.error ⟨.unexpectedCharacter '\\', state.cursor.pos⟩) .ok := rfl
    rw [other, front, signless] at hplain
    contradiction

/-- What a newline ends is ended with lines below as well: the heredocs that it waits with are read alike. -/
theorem newline_below {more : List Char} (front : state.cursor.rest = '\n' :: more)
    (named : ∀ opened ∈ state.pending, opened.1.closedBy [] = false) (short : more.length ≤ bound)
    (h : newline code state = .ok found) :
    ∃ past, (past = true → found.state.cursor.rest = []) ∧ ∀ code' below state', Refines bound code code' →
      continuesWithDot below = false → Twin [] ('\n' :: below) state.cursor.rest state state' →
      ∃ found', newline code' state' = .ok found' ∧ Alike found found' ∧ Above below found.state found'.state past := by
  obtain ⟨bodies, cursor, hbodies, rfl⟩ := newline_cases h
  have next : state.cursor.next.rest = more := by rw [rest_next, front]; rfl
  obtain ⟨past, spent, onward⟩ := readBodies_below named (next ▸ short) hbodies
  refine ⟨past, by split <;> exact spent, fun code' below state' refines undotted twin => ?_⟩
  have front' : state'.cursor.rest = '\n' :: (more ++ '\n' :: below) := by rw [twin.front', front]; rfl
  have next' : state'.cursor.next.rest = more ++ '\n' :: below := by rw [rest_next, front']; rfl
  have nexts : CursorAbove false below state.cursor.next state'.cursor.next :=
    ⟨by rw [next', next]; rfl, by rw [next_fresh front, next_fresh front']; rfl⟩
  obtain ⟨bodies', cursor', hbodies', same, above⟩ := onward code' below _ _ refines nexts twin.pending
  have dot : continuesWithDot cursor'.rest = continuesWithDot cursor.rest := by
    rw [above.front]
    cases past with
    | false => exact continuesWithDot_below undotted cursor.rest
    | true =>
      rw [spent rfl]
      exact undotted
  refine ⟨_, newline_eq_ok hbodies', ?_⟩
  rw [twin.last.separable, dot]
  split
  · exact ⟨⟨rfl, same⟩, above.above rfl twin.last rfl⟩
  · exact ⟨⟨rfl, same⟩, above.above rfl (.refl _) rfl⟩

/-- What a step finds in a text it finds with lines below it, which no code carries the text on with. -/
theorem Step.linesBelow (h : Step code state found)
    (named : ∀ opened ∈ state.pending, opened.1.closedBy [] = false) (short : state.cursor.rest.length ≤ bound) :
    ∃ past, (past = true → found.state.cursor.rest = []) ∧ ∀ code' below state', Refines bound code code' →
      continuesWithDot below = false → Above below state state' false →
      ∃ found', Step code' state' found' ∧ Alike found found' ∧ Above below found.state found'.state past := by
  have cursors {below : List Char} {state' : State} (twin : Twin [] ('\n' :: below) state.cursor.rest state state')
      (fresh : state'.cursor.fresh = state.cursor.fresh) : CursorAbove false below state.cursor state'.cursor :=
    ⟨twin.front', fresh⟩
  cases h with
  | blockComment some begins behind =>
    have suffix := afterBlockComment_suffix behind
    obtain ⟨past, whole, there⟩ := afterBlockComment_below (fun _ => rfl) behind
    refine ⟨past, fun spent => (rest_moveTo suffix).trans (whole spent),
      fun code' below state' refines undotted above => ?_⟩
    obtain ⟨twin⟩ := above
    have begins' := (twin.atBlockComment_eq (parting_below below)).trans begins
    have fresh : state'.cursor.fresh = state.cursor.fresh :=
      (Bool.and_eq_true_iff.1 begins').1.trans (Bool.and_eq_true_iff.1 begins).1.symm
    refine ⟨_, .blockComment (by simp [twin.front']) begins' (twin.front' ▸ there below), ⟨rfl, rfl⟩, ?_⟩
    exact ((cursors twin fresh).moveTo suffix whole).above twin.spaced twin.last twin.pending
  | @blank c more front atCode blank =>
    refine ⟨false, nofun, fun code' below state' refines undotted above => ?_⟩
    obtain ⟨twin⟩ := above
    have front' : state'.cursor.rest = c :: (more ++ '\n' :: below) := by rw [twin.front', front]; rfl
    have next : state.cursor.next.rest = more := by rw [rest_next, front]; rfl
    have next' : state'.cursor.next.rest = more ++ '\n' :: below := by rw [rest_next, front']; rfl
    refine ⟨_, .blank front' (twin.atCode (parting_below below) atCode) blank, ⟨rfl, rfl⟩, .line ⟨?_, ?_, .inl ?_, rfl,
      twin.last, twin.pending⟩⟩
    · exact (List.append_nil _).symm
    · rw [next, next']
    · rw [next_fresh front, next_fresh front']
  | @continuation more front atCode =>
    refine ⟨false, nofun, fun code' below state' refines undotted above => ?_⟩
    obtain ⟨twin⟩ := above
    have front' : state'.cursor.rest = '\\' :: '\n' :: (more ++ '\n' :: below) := by rw [twin.front', front]; rfl
    refine ⟨_, .continuation front' (twin.atCode (parting_below below) atCode), ⟨rfl, rfl⟩, .line ⟨?_, ?_, .inl ?_, rfl,
      twin.last, twin.pending⟩⟩
    · exact (List.append_nil _).symm
    · rw [rest_skip, rest_skip, front, front']
      rfl
    · exact skip_fresh_eq twin.front twin.front' (by simp [front]) (.inl Nat.two_pos)
  | @comment more front atCode =>
    refine ⟨false, nofun, fun code' below state' refines undotted above => ?_⟩
    obtain ⟨twin⟩ := above
    have front' : state'.cursor.rest = '#' :: (more ++ '\n' :: below) := by rw [twin.front', front]; rfl
    have suffix := List.dropWhile_suffix (l := state.cursor.rest) (fun c : Char => decide (c ≠ '\n'))
    have less : (state.cursor.rest.dropWhile (· ≠ '\n')).length < state.cursor.rest.length := by
      rw [front, List.dropWhile_cons_of_pos (by decide)]
      exact Nat.lt_succ_of_le (List.dropWhile_suffix _).length_le
    have moved := twin.moveTo suffix (.inl less)
    rw [List.append_nil, ← dropWhile_below below, ← twin.front'] at moved
    refine ⟨_, .comment front' (twin.atCode (parting_below below) atCode), ⟨rfl, rfl⟩, .line ?_⟩
    exact (rest_moveTo suffix).symm ▸ moved
  | @newline more found front atCode h =>
    have less : more.length ≤ bound := by
      rw [front, List.length_cons] at short
      omega
    obtain ⟨past, spent, onward⟩ := newline_below front named less h
    refine ⟨past, spent, fun code' below state' refines undotted above => ?_⟩
    obtain ⟨twin⟩ := above
    have front' : state'.cursor.rest = '\n' :: (more ++ '\n' :: below) := by rw [twin.front', front]; rfl
    obtain ⟨found', h', alike, above'⟩ := onward code' below state' refines undotted twin
    exact ⟨found', .newline front' (twin.atCode (parting_below below) atCode) h', alike, above'⟩
  | @token c more found front atCode solid single hash line h =>
    refine ⟨false, nofun, fun code' below state' refines undotted above => ?_⟩
    obtain ⟨twin⟩ := above
    have front' : state'.cursor.rest = c :: (more ++ '\n' :: below) := by rw [twin.front', front]; rfl
    have single' : ¬(c = '\\' ∧ (more ++ '\n' :: below).head? = some '\n') := by
      rintro ⟨rfl, line'⟩
      cases more with
      | nil => exact token_backslash_end front h
      | cons d others => exact single ⟨rfl, line'⟩
    have twin' := front ▸ twin
    obtain ⟨found', after, h', alike, -, twin''⟩ := token_twin refines (parting_below below) twin' (front ▸ short)
      (fun back => absurd back (by simp)) h (Nat.zero_le _)
    have left : found.state.cursor.rest = after := by rw [twin''.front, List.append_nil]
    exact ⟨found', .token front' (twin.atCode (parting_below below) atCode) solid single' hash line h', alike,
      .line (left ▸ twin'')⟩

/-! Whole scans -/

theorem marked_movedOn {behind : Cursor} (h : marked cursor.fresh cursor.rest = false) (moved : MovedOn cursor behind) :
    marked behind.fresh behind.rest = false := by
  obtain ⟨n, rfl⟩ := moved
  induction n generalizing cursor with
  | zero => exact h
  | succ n ih =>
    have next : marked cursor.next.fresh cursor.next.rest = false := by
      obtain ⟨rest, pos, fresh⟩ := cursor
      cases rest with
      | nil => rfl
      | cons c more => exact (Bool.or_eq_false_iff.1 h).2
    exact ih next

theorem atData_of_unmarked (h : marked state.cursor.fresh state.cursor.rest = false) : atData state = false := by
  unfold atData
  cases rest : state.cursor.rest with
  | nil => exact Bool.and_false _
  | cons c more =>
    rw [rest] at h
    exact (Bool.or_eq_false_iff.1 h).1

/-- The scan of a text without a mark of data, up to its end, and of the text with lines below it. -/
theorem Scans.linesBelow (h : Scans code state tokens bodies)
    (named : ∀ opened ∈ state.pending, opened.1.closedBy [] = false)
    (unmarked : marked state.cursor.fresh state.cursor.rest = false) (short : state.cursor.rest.length ≤ bound) :
    ∃ front last past, Reaches code state front bodies last ∧ last.pending = [] ∧
      tokens = front ++ [⟨.endOfText, last.cursor.pos, true⟩] ∧ last.cursor.rest = [] ∧
      ∀ code' below state', Refines bound code code' → continuesWithDot below = false →
        Above below state state' false → ∃ front' bodies' last',
        Reaches code' state' front' bodies' last' ∧ unplaced front' = unplaced front ∧
        bodies'.map unplacedSegments = bodies.map unplacedSegments ∧ Above below last last' past := by
  induction h with
  | @done state none idle =>
    have spent : state.cursor.rest = [] := by
      refine (step_eq_none_iff.1 none).resolve_right fun ends => ?_
      rw [atData_of_unmarked unmarked] at ends
      exact Bool.noConfusion ends.2
    exact ⟨[], state, false, .refl state, idle, rfl, spent, fun code' below state' _ _ above =>
      ⟨[], [], state', .refl state', rfl, rfl, above⟩⟩
  | @next state found tokens bodies hstep h ih =>
    obtain ⟨past, spent, onward⟩ := hstep.linesBelow named short
    cases past with
    | true =>
      cases h with
      | @done _ none idle =>
        refine ⟨found.tokens, found.state, true, ?_, idle, rfl, spent rfl,
          fun code' below state' refines undotted above => ?_⟩
        · rw [List.append_nil]
          exact .step hstep
        · obtain ⟨found', hstep', alike, above'⟩ := onward code' below state' refines undotted above
          refine ⟨_, _, found'.state, .step hstep', alike.tokens, ?_, above'⟩
          rw [List.append_nil]
          exact alike.bodies
      | next hstep' =>
        have less := hstep'.suffix.2
        rw [spent rfl] at less
        exact absurd less (Nat.not_lt_zero _)
    | false =>
      have less := Nat.le_trans (Nat.le_of_lt hstep.suffix.2) short
      obtain ⟨front, last, past, reaches, idle, rfl, none, rest⟩ :=
        ih (hstep.named named) (marked_movedOn unmarked hstep.movedOn) less
      refine ⟨_, last, past, .next hstep reaches, idle, (List.append_assoc ..).symm, none,
        fun code' below state' refines undotted above => ?_⟩
      obtain ⟨found', hstep', alike, above'⟩ := onward code' below state' refines undotted above
      obtain ⟨front', bodies', last', reaches', same, filled, above''⟩ := rest code' below _ refines undotted above'
      refine ⟨_, _, last', .next hstep' reaches', ?_, ?_, above''⟩
      · rw [unplaced_append, unplaced_append, alike.tokens, same]
      · rw [List.map_append, List.map_append, alike.bodies, filled]

/-! Behind the text -/

/-- At the start of a line, behind nothing or a separator, a blank counts as read. -/
def Flush (state : State) : Prop :=
  state.cursor.fresh = true → state.last.any (!·.isSeparator) = false → state.spaced = true

theorem fresh_moveTo {before rest : List Char} {c : Char} (front : cursor.rest = before ++ c :: rest) :
    (cursor.moveTo rest).fresh = decide (c = '\n') := by
  have front' : cursor.rest = (before ++ [c]) ++ rest := by rw [front, List.append_assoc]; rfl
  have last : (cursor.skip before.length).rest = c :: rest := by rw [rest_skip, front, List.drop_left]
  rw [Cursor.moveTo_eq_skip front', List.length_append, skip_add]
  exact next_fresh last

theorem Step.flush (h : Step code state found) (flush : Flush state) : Flush found.state := by
  cases h with
  | blockComment some begins behind => exact fun _ => flush (Bool.and_eq_true_iff.1 begins).1
  | blank | continuation => exact fun _ _ => rfl
  | @comment more front =>
    intro fresh
    have first : state.cursor.rest.takeWhile (· ≠ '\n') ≠ [] := by
      rw [front, List.takeWhile_cons_of_pos (by decide)]
      exact List.cons_ne_nil _ _
    obtain ⟨before, c, eq⟩ := (List.eq_nil_or_concat _).resolve_left first
    have split := List.takeWhile_append_dropWhile (p := (· ≠ '\n')) (l := state.cursor.rest)
    rw [eq, List.concat_eq_append, List.append_assoc] at split
    have mem : c ∈ state.cursor.rest.takeWhile (· ≠ '\n') := by
      rw [eq]
      simp
    have inline : decide (c ≠ '\n') = true := List.mem_takeWhile_imp (p := (· ≠ '\n')) mem
    have line := (fresh_moveTo split.symm).symm.trans fresh
    exact absurd (of_decide_eq_true line) (of_decide_eq_true inline)
  | newline front atCode h =>
    obtain ⟨bodies, cursor, -, rfl⟩ := newline_cases h
    split <;> exact fun _ _ => rfl
  | @token c more found front atCode solid single hash line h =>
    obtain ⟨opener, after, -, -, rfl⟩ | ⟨-, lexeme, after, hplain, rfl⟩ := token_cases h
    · exact fun _ separates => Bool.noConfusion separates
    · intro fresh separates
      obtain ⟨spelling, whole, spelled⟩ := takes_plainToken front hplain
      have separator : lexeme.isSeparator = true := by simpa [State.taken] using separates
      obtain ⟨d, rfl, other⟩ : ∃ d, spelling = [d] ∧ d ≠ '\n' := by
        cases lexeme with
        | semicolon => exact ⟨';', spelled, by decide⟩
        | newline =>
          obtain rfl : spelling = ['\n'] := spelled
          exact absurd (List.cons.inj whole).1.symm line
        | _ => cases separator
      have front' : state.cursor.rest = [] ++ d :: after := front.trans whole.symm
      have line' := (fresh_moveTo front').symm.trans fresh
      exact absurd (of_decide_eq_true line') other

theorem Reaches.flush (h : Reaches code state tokens bodies last) (flush : Flush state) : Flush last := by
  induction h with
  | refl => exact flush
  | next hstep _ ih => exact ih (hstep.flush flush)

/-- A newline, wherever it stands. -/
def lineEnd : Token :=
  ⟨.newline, nowhere .origin, false⟩

theorem Akin.of_separated {last : Option (Lexeme Token)} (separated : last.any (!·.isSeparator) = false) :
    Akin none last := by
  cases last with
  | none => exact .refl none
  | some lexeme => exact .separator (by simpa using separated)

/-- Where a text is over, the scan of the longer text comes to the lines below as it would begin with them. -/
theorem Above.resume (above : Above below last last' past) (idle : last.pending = []) (spent : last.cursor.rest = [])
    (undotted : continuesWithDot below = false) (flush : Flush last')
    (separated : past = true → last.last.any (!·.isSeparator) = false) (pos : Position) :
    ∃ gap here, Reaches code last' gap [] here ∧
      unplaced gap = (if last.last.any (!·.isSeparator) then [lineEnd] else []) ∧
      Twin [] [] below (.ofText below pos) here := by
  cases above with
  | past front fresh akin pending =>
    have none := separated rfl
    have none' := akin.separable.trans none
    refine ⟨[], last', .refl last', by rw [none]; rfl, ⟨(List.append_nil _).symm, ?_, .inl fresh, flush fresh none',
      .of_separated none', ?_⟩⟩
    · rw [front, List.append_nil]
    · rw [pending, idle]
  | line twin =>
    have front : last'.cursor.rest = '\n' :: below := by rw [twin.front', spent]; rfl
    have next : last'.cursor.next.rest = below := by rw [rest_next, front]; rfl
    have idle' : last'.pending = [] := by simpa [idle] using twin.pending
    have read : readBodies code last'.cursor.next last'.pending = .ok ([], last'.cursor.next) := by
      rw [idle']
      rfl
    have hstep := Step.newline front (atCode_of_head front (by decide) (by decide)) (newline_eq_ok read)
    rw [next, undotted, twin.last.separable, Bool.false_or] at hstep
    have fresh : last'.cursor.next.fresh = true := next_fresh front
    have here (lexeme : Option (Lexeme Token)) (akin : Akin none lexeme) : Twin [] [] below (.ofText below pos)
        ⟨last'.cursor.next, true, lexeme, []⟩ :=
      ⟨(List.append_nil _).symm, by rw [next, List.append_nil], .inl fresh, rfl, akin, rfl⟩
    cases separates : last.last.any (!·.isSeparator) with
    | true =>
      rw [separates] at hstep
      exact ⟨_, _, .step hstep, rfl, here _ (.separator rfl)⟩
    | false =>
      rw [separates] at hstep
      exact ⟨_, _, .step hstep, rfl, here _ (.of_separated (twin.last.separable.trans separates))⟩

/-! Where the last statement ends -/

theorem separators_unplaced (tokens : List Token) :
    (unplaced tokens).map (·.lexeme.isSeparator) = tokens.map (·.lexeme.isSeparator) := by
  rw [unplaced, List.map_map]
  refine List.map_congr_left fun token _ => ?_
  rw [Function.comp_apply, Token.lexeme_place]
  cases token.lexeme <;> rfl

theorem separators_plug (tokens : List Token) (bodies : List Segments) :
    (plug tokens bodies).map (·.lexeme.isSeparator) = tokens.map (·.lexeme.isSeparator) := by
  induction tokens generalizing bodies with
  | nil => rfl
  | cons token more ih =>
    by_cases hollow : token.lexeme = .string []
    · obtain ⟨lexeme, pos, spaced⟩ := token
      subst hollow
      cases bodies with
      | nil => exact congrArg (false :: ·) (ih [])
      | cons found others => exact congrArg (false :: ·) (ih others)
    · rw [plug_cons_of_ne hollow, List.map_cons, List.map_cons, ih]

theorem Reaches.last_eq (h : Reaches code state tokens bodies last) :
    last.last = (tokens.getLast?.map (·.lexeme)).or state.last := by
  induction h with
  | refl => rfl
  | @next state last found tokens bodies hstep _ ih =>
    rw [ih, List.getLast?_append, Option.map_or, Option.or_assoc]
    obtain ⟨none, same⟩ | ⟨token, -, -, one, same, -⟩ := hstep.taken
    · rw [none, same]
      rfl
    · rw [one, same]
      rfl

end Scan

/-- The last statement of the tokens has ended, if there is one. -/
def Closed (tokens : List Token) : Prop :=
  ∀ token ∈ tokens.getLast?, token.lexeme.isSeparator = true

instance : DecidablePred Closed :=
  fun tokens => inferInstanceAs (Decidable (∀ token ∈ tokens.getLast?, token.lexeme.isSeparator = true))

/-- A newline behind the text ends its last statement, if it has one. -/
def EndsStatement (text : List Char) : Prop :=
  ∃ tokens ∈ (tokenize (text ++ ['\n']) .origin).toOption, Closed tokens.dropLast

instance : DecidablePred EndsStatement :=
  fun text =>
    inferInstanceAs (Decidable (∃ tokens ∈ (tokenize (text ++ ['\n']) .origin).toOption, Closed tokens.dropLast))

theorem closed_congr {tokens tokens' : List Token}
    (same : tokens'.map (·.lexeme.isSeparator) = tokens.map (·.lexeme.isSeparator)) :
    Closed tokens' ↔ Closed tokens := by
  have closed_iff (tokens : List Token) :
      Closed tokens ↔ ∀ separates ∈ (tokens.map (·.lexeme.isSeparator)).getLast?, separates = true := by
    simp [Closed]
  rw [closed_iff, closed_iff, same]

namespace Scan

open Body Result

variable {code : Reader} {source below : List Char} {last : State} {tokens : List Token} {bodies : List Segments}
  {pos : Position}

theorem Reaches.closed_iff (h : Reaches code (.ofText text pos) tokens bodies last) :
    Closed tokens ↔ last.last.any (!·.isSeparator) = false := by
  rw [h.last_eq, Closed]
  cases tokens.getLast? <;> simp

theorem length_hollow (h : Scans code (.ofText text pos) (tokens ++ [⟨.endOfText, last.cursor.pos, true⟩]) bodies) :
    (tokens.filter isHollow).length = bodies.length := by
  obtain ⟨openers, opened, filled⟩ := h.paired (Cursor.counts_ofText text pos) nofun
  rw [List.filter_append, show [(⟨.endOfText, last.cursor.pos, true⟩ : Token)].filter isHollow = [] from rfl,
    List.append_nil] at opened
  exact opened.length_eq.trans filled.length_eq

/-- A scan that comes to a text as it would begin with it finds the tokens of that text there. -/
theorem Reaches.tokenize_eq
    (h : Reaches (tokensWithin source.length) (.ofText source .origin) tokens bodies last)
    (full : (tokens.filter isHollow).length = bodies.length) (twin : Twin [] [] below (.ofText below .origin) last)
    (within : below.length ≤ source.length) : (tokenize source .origin).toOption.map unplaced =
      (tokenize below .origin).toOption.map (unplaced (plug tokens bodies) ++ unplaced ·) := by
  have joined {more more' : List Token} {others others' : List Segments} (same : unplaced more' = unplaced more)
      (same' : others'.map unplacedSegments = others.map unplacedSegments) :
      unplaced (plug (tokens ++ more') (bodies ++ others')) =
        unplaced (plug tokens bodies) ++ unplaced (plug more others) := by
    rw [plug_append full, unplaced_append, plug_unplaced more', same, same', plug_unplaced more]
  cases short : tokenize below .origin with
  | ok all =>
    obtain ⟨more, others, alone, rfl⟩ := tokensWithin_eq_ok_iff.1 short
    obtain ⟨more', others', behind, same, same'⟩ :=
      alone.twin (refines_tokensWithin below.length _ _ within) twin (Nat.le_refl _)
    have read : tokenize source .origin = _ :=
      tokensWithin_eq_ok_iff.2 ⟨_, _, h.scans_iff.2 ⟨_, _, behind, rfl, rfl⟩, rfl⟩
    rw [read]
    exact congrArg some (joined same same')
  | error fault =>
    cases long : tokenize source .origin with
    | error fault' => rfl
    | ok all =>
      obtain ⟨found, filled, scans, rfl⟩ := tokensWithin_eq_ok_iff.1 long
      obtain ⟨more, others, behind, -, -⟩ := h.scans_iff.1 scans
      obtain ⟨more', others', alone, -, -⟩ :=
        behind.twin (refines_tokensWithin below.length _ below.length (Nat.le_refl _)) twin.symm (Nat.le_refl _)
      have read : tokenize below .origin = _ := tokensWithin_eq_ok_iff.2 ⟨_, _, alone, rfl⟩
      rw [read] at short
      contradiction

/-- The tokens of a text and of the newline behind it, with the bodies of the text. -/
theorem unplaced_plug_above {front front' gap : List Token} {bodies' : List Segments}
    (full : (front.filter isHollow).length = bodies.length) (sameFront : unplaced front' = unplaced front)
    (sameBodies : bodies'.map unplacedSegments = bodies.map unplacedSegments) (solid : gap.filter isHollow = []) :
    ((front' ++ gap).filter isHollow).length = (bodies' ++ []).length ∧
      unplaced (plug (front' ++ gap) (bodies' ++ [])) = unplaced (plug front bodies) ++ unplaced gap := by
  have hollow := congrArg (fun tokens => (tokens.filter isHollow).length) sameFront
  have filled := congrArg List.length sameBodies
  simp only [filter_isHollow_unplaced, List.length_map] at hollow filled
  have full' : (front'.filter isHollow).length = bodies'.length := hollow.trans (full.trans filled.symm)
  constructor
  · rw [List.filter_append, solid, List.append_nil, List.append_nil, full']
  · rw [plug_append full', plug_nil, unplaced_append, plug_unplaced, sameFront, sameBodies, ← plug_unplaced]

end Scan

open Scan Body Result in
/-- Below a text whose last statement has ended, other lines give the tokens that they give alone. -/
theorem tokenize_linesBelow {all : List Token} (read : tokenize text .origin = .ok all)
    (unmarked : marked true text = false) (ended : EndsStatement text) :
    ∃ front final gap, all = front ++ [final] ∧ (gap = [] ∧ Closed front ∨ gap = [lineEnd]) ∧
      ∀ below, continuesWithDot below = false → (tokenize (text ++ '\n' :: below) .origin).toOption.map unplaced =
        (tokenize below .origin).toOption.map (unplaced front ++ gap ++ unplaced ·) := by
  obtain ⟨found, bodies, scans, rfl⟩ := tokensWithin_eq_ok_iff.1 read
  obtain ⟨front, last, past, reaches, idle, rfl, spent, onward⟩ := scans.linesBelow nofun unmarked (Nat.le_refl _)
  have full := length_hollow scans
  -- The text with lines below it, read up to them.
  have above (below : List Char) (undotted : continuesWithDot below = false) :
      ∃ front' bodies' last', Reaches (tokensWithin (text ++ '\n' :: below).length)
        (.ofText (text ++ '\n' :: below) .origin) front' bodies' last' ∧ unplaced front' = unplaced front ∧
        bodies'.map unplacedSegments = bodies.map unplacedSegments ∧ Above below last last' past := by
    refine onward _ below _ (refines_tokensWithin _ _ _ ?_) undotted (.line ⟨?_, rfl, .inl rfl, rfl, .refl none, rfl⟩)
    · rw [List.length_append]
      exact Nat.le_add_right _ _
    · exact (List.append_nil text).symm
  have flush (below : List Char) : Flush (.ofText (text ++ '\n' :: below) .origin) := fun _ _ => rfl
  have separated (whole : past = true) : last.last.any (!·.isSeparator) = false := by
    subst whole
    obtain ⟨front', bodies', last', reaches', -, -, above'⟩ := above [] rfl
    cases above' with
    | past none _ akin pending =>
      have idle' : last'.pending = [] := by simpa [idle] using pending
      have scans' := reaches'.scans_iff.2 ⟨_, _, .done (step_eq_none_iff.2 (.inl none)) idle', rfl, rfl⟩
      obtain ⟨tokens, read', closed⟩ := ended
      have whole : tokenize (text ++ ['\n']) .origin = _ := tokensWithin_eq_ok_iff.2 ⟨_, _, scans', rfl⟩
      have all := Except.ok.inj ((toOption_eq_some_iff.1 read').symm.trans whole)
      rw [plug_append_end] at all
      rw [all, List.dropLast_concat] at closed
      exact akin.separable.symm.trans (reaches'.closed_iff.1 ((closed_congr (separators_plug front' _)).1 closed))
  refine ⟨plug front bodies, _, if last.last.any (!·.isSeparator) then [lineEnd] else [],
    plug_append_end front _ bodies, ?_, fun below undotted => ?_⟩
  · cases separates : last.last.any (!·.isSeparator) with
    | true => exact .inr rfl
    | false => exact .inl ⟨rfl, (closed_congr (separators_plug front bodies)).2 (reaches.closed_iff.2 separates)⟩
  obtain ⟨front', bodies', last', reaches', sameFront, sameBodies, above'⟩ := above below undotted
  obtain ⟨gap, here, onward, between, twin⟩ :=
    above'.resume idle spent undotted (reaches'.flush (flush below)) separated .origin
  have solid : gap.filter isHollow = [] := by
    refine List.map_eq_nil_iff.1 ((filter_isHollow_unplaced gap).symm.trans ?_)
    rw [between]
    cases last.last.any (!·.isSeparator) <;> rfl
  obtain ⟨full', all⟩ := unplaced_plug_above full sameFront sameBodies solid
  rw [← between, ← all]
  refine (reaches'.trans onward).tokenize_eq full' twin ?_
  rw [List.length_append, List.length_cons]
  omega

end Formulary
