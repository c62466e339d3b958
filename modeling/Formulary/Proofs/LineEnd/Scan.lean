import Formulary.Proofs.LineEnd.Token
import Formulary.Proofs.Token.Run

/-!
A scan of a text and one of the text with the other line ends, side by side. Before a newline the other scan takes a
step of its own, over the carriage return, unless a comment took it there.
-/

namespace Formulary.LineEnd

open Body Gap Result Scan Seam Spelling

variable {code code' : Reader} {bound : Nat} {cursor cursor' : Cursor} {state state' : State} {c : Char}
  {text more after : List Char} {lexeme lexeme' : Lexeme Token} {found : Found}

/-! Cursors -/

theorem skip_fresh (n : Nat) (cursor : Cursor) : (cursor.skip n).fresh =
    (cursor.rest.take n).foldl (fun _ c => decide (c = '\n')) cursor.fresh := by
  induction n generalizing cursor with
  | zero => rfl
  | succ n ih =>
    rw [Cursor.skip, ih, rest_next]
    cases front : cursor.rest with
    | nil =>
      obtain ⟨rest, pos, fresh⟩ := cursor
      obtain rfl : rest = [] := front
      rw [List.tail_nil, List.take_nil, List.take_nil]
      rfl
    | cons c more =>
      rw [next_fresh front, List.tail_cons, List.take_succ_cons]
      rfl

theorem foldl_crlf (fresh : Bool) (text : List Char) : (crlf text).foldl (fun _ c => decide (c = '\n')) fresh =
    text.foldl (fun _ c => decide (c = '\n')) fresh := by
  induction text generalizing fresh with
  | nil => rfl
  | cons c more ih =>
    by_cases line : c = '\n'
    · subst line
      exact ih true
    · rw [crlf_cons line]
      exact ih _

/-- Two cursors at the same place of a text and of the text with the other line ends. -/
structure Level (cursor cursor' : Cursor) : Prop where
  rest : cursor'.rest = crlf cursor.rest
  fresh : cursor'.fresh = cursor.fresh

theorem Level.next (level : Level cursor cursor') (front : cursor.rest = c :: more) (inline : c ≠ '\n') :
    Level cursor.next cursor'.next := by
  have front' : cursor'.rest = c :: crlf more := by rw [level.rest, front, crlf_cons inline]
  constructor
  · rw [rest_next, rest_next, front, front', List.tail_cons, List.tail_cons]
  · rw [next_fresh front, next_fresh front']

theorem Level.moveTo (level : Level cursor cursor') (suffix : after <:+ cursor.rest) :
    Level (cursor.moveTo after) (cursor'.moveTo (crlf after)) where
  rest := by
    rw [rest_moveTo suffix, rest_moveTo]
    rw [level.rest]
    exact crlf_suffix suffix
  fresh := by
    obtain ⟨text, whole⟩ := suffix
    have taken (text after : List Char) : (text ++ after).take ((text ++ after).length - after.length) = text := by
      rw [List.length_append, Nat.add_sub_cancel, List.take_left]
    rw [Cursor.moveTo, Cursor.moveTo, skip_fresh, skip_fresh, level.rest, level.fresh, ← whole, crlf_append, taken,
      taken, foldl_crlf]

/-! Scans at the same place -/

/-- Two scans at the same place. -/
structure Abreast (state state' : State) : Prop where
  level : Level state.cursor state'.cursor
  spaced : state'.spaced = state.spaced
  last : state'.last.map (Lexeme.place nowhere) = state.last.map (Lexeme.place nowhere)
  pending : state'.pending.map Prod.fst = state.pending.map Prod.fst

/-- Two scans before the newline of the same line, the carriage return behind one of them. -/
structure AtLine (state state' : State) (more : List Char) : Prop where
  rest : state.cursor.rest = '\n' :: more
  rest' : state'.cursor.rest = '\n' :: crlf more
  last : state'.last.map (Lexeme.place nowhere) = state.last.map (Lexeme.place nowhere)
  pending : state'.pending.map Prod.fst = state.pending.map Prod.fst

def Near (state state' : State) : Prop :=
  Abreast state state' ∨ ∃ more, AtLine state state' more

/-- Two steps that find the same but for positions and are still side by side. -/
structure Along (found found' : Found) : Prop where
  alike : Scan.Alike found found'
  near : Near found.state found'.state

/-- Behind a comment one scan may stand before the carriage return and the other behind it. -/
theorem near_pastComment (abreast : Abreast state state') :
    Near { state with cursor := state.cursor.moveTo (state.cursor.rest.dropWhile (· ≠ '\n')) }
      { state' with cursor := state'.cursor.moveTo (state'.cursor.rest.dropWhile (· ≠ '\n')) } := by
  obtain ⟨front, rest, whole, inline, line⟩ := exists_line state.cursor.rest
  have past (rest : List Char) : (front ++ rest).dropWhile (· ≠ '\n') = rest.dropWhile (· ≠ '\n') := by
    refine List.dropWhile_append_of_pos fun c member => ?_
    have : c ≠ '\n' := fun newline => inline (newline ▸ member)
    simpa using this
  have whole' : state'.cursor.rest = front ++ crlf rest := by
    rw [abreast.level.rest, whole, crlf_append_of_inline inline]
  rw [whole', past, whole, past]
  cases rest with
  | nil => exact .inl { abreast with level := abreast.level.moveTo List.nil_suffix }
  | cons c more =>
    obtain rfl := line c rfl
    refine .inr ⟨more, rest_moveTo ?_, rest_moveTo ?_, abreast.last, abreast.pending⟩
    · rw [whole]
      exact List.suffix_append _ _
    · rw [whole', crlf_line]
      exact (List.suffix_cons '\r' _).trans (List.suffix_append _ _)

theorem Abreast.taken (abreast : Abreast state state') (suffix : after <:+ state.cursor.rest)
    (same : lexeme'.place nowhere = lexeme.place nowhere) :
    Abreast (state.taken lexeme after) (state'.taken lexeme' (crlf after)) where
  level := abreast.level.moveTo suffix
  spaced := rfl
  last := congrArg some same
  pending := abreast.pending

/-! Steps -/

theorem readBodies_crlf (readers : Mutual bound code code') {pending pending' : List (Heredoc.Opener × Position)}
    (openers : pending'.map Prod.fst = pending.map Prod.fst) (level : Level cursor cursor')
    (short : cursor.rest.length ≤ bound) (unbroken : '\n' ∉ heredocText pending cursor.rest) :
    Both (fun found found' => found'.1.map unplacedSegments = found.1.map unplacedSegments ∧ Level found.2 found'.2)
      (readBodies code cursor pending) (readBodies code' cursor' pending') := by
  induction pending generalizing pending' cursor cursor' with
  | nil =>
    obtain rfl : pending' = [] := by simpa using openers
    exact ⟨rfl, level⟩
  | cons opened more ih =>
    obtain ⟨opener, pos⟩ := opened
    cases pending' with
    | nil => simp at openers
    | cons opened' more' =>
      obtain ⟨opener', pos'⟩ := opened'
      obtain ⟨rfl, others⟩ : opener' = opener ∧ more'.map Prod.fst = more.map Prod.fst := by simpa using openers
      rw [readBodies, readBodies, level.rest, takeBody_crlf List.not_mem_nil]
      rw [heredocText] at unbroken
      cases taken : Heredoc.takeBody opener' [] cursor.rest with
      | none => trivial
      | some found =>
        obtain ⟨lines, after⟩ := found
        rw [taken] at unbroken
        obtain ⟨inline, unbroken⟩ := not_or.1 (mt List.mem_append.2 unbroken)
        have same : lines.map crlf = lines := by
          refine (List.map_congr_left fun line member => crlf_eq_self fun newline => ?_).trans (List.map_id lines)
          exact inline (List.mem_flatten_of_mem member newline)
        have suffix := takeBody_suffix taken
        have within : (opener'.bodyText lines).length ≤ bound := by
          have := length_of_takeBody taken
          have := length_bodyText_le opener' lines
          simp only [List.length_nil] at *
          omega
        have behind : (cursor.moveTo after).rest = after := rest_moveTo suffix
        dsimp only [Option.map_some]
        rw [same]
        refine (segments_mutual readers _ _ within).bind fun body body' _ sameBody => ?_
        refine (ih others (level.moveTo suffix) ?_ ?_).bind fun found found' _ along => ⟨?_, along.2⟩
        · rw [behind]
          exact Nat.le_trans suffix.length_le short
        · rwa [behind]
        · rw [List.map_cons, List.map_cons, sameBody, along.1]

theorem newline_crlf (readers : Mutual bound code code') (line : AtLine state state' more) (short : more.length ≤ bound)
    (unbroken : '\n' ∉ held state) : Both Along (newline code state) (newline code' state') := by
  have separates : state'.last.any (!·.isSeparator) = state.last.any (!·.isSeparator) :=
    (Akin.of_unplaced line.last).separable
  have next : state.cursor.next.rest = more := by rw [rest_next, line.rest, List.tail_cons]
  have level : Level state.cursor.next state'.cursor.next := by
    constructor
    · rw [next, rest_next, line.rest', List.tail_cons]
    · rw [next_fresh line.rest, next_fresh line.rest']
  have text : '\n' ∉ heredocText state.pending state.cursor.next.rest := by
    rw [next]
    unfold held at unbroken
    simp only [line.rest] at unbroken
    exact unbroken
  refine (readBodies_crlf readers line.pending level (next ▸ short) text).bind ?_
  rintro ⟨bodies, cursor⟩ ⟨bodies', cursor'⟩ - ⟨same, level⟩
  dsimp only
  rw [separates, level.rest, continuesWithDot_crlf]
  split
  · exact ⟨⟨rfl, same⟩, .inl ⟨level, rfl, line.last, rfl⟩⟩
  · exact ⟨⟨rfl, same⟩, .inl ⟨level, rfl, rfl, rfl⟩⟩

section Steps

variable (readers : Mutual bound code code') (abreast : Abreast state state') (front : state.cursor.rest = c :: more)
  (plain : '\r' ∉ more) (inline : c ≠ '\n') (short : state.cursor.rest.length ≤ bound)
  (unbroken : '\n' ∉ held state) (seen : overlooksReturn state = false)
include readers abreast front plain inline short unbroken seen

omit readers plain short unbroken seen in
theorem opened_crlf : (if c = '<' then heredoc? state' else none) =
    (if c = '<' then heredoc? state else none).map fun (opener, behind) => (opener, crlf behind) := by
  have front' : state'.cursor.rest = c :: crlf more := by rw [abreast.level.rest, front, crlf_cons inline]
  rw [heredoc?_crlf front front' abreast.last abreast.spaced]
  split <;> rfl

theorem token_crlf : Both Along (token code state c) (token code' state' c) := by
  have front' : state'.cursor.rest = c :: crlf more := by rw [abreast.level.rest, front, crlf_cons inline]
  unfold token
  dsimp only
  rw [opened_crlf abreast front inline]
  cases opens : (if c = '<' then heredoc? state else none) with
  | some found =>
    obtain ⟨opener, after⟩ := found
    have suffix : after <:+ state.cursor.rest := by
      split at opens
      · exact front ▸ (heredoc?_suffix front opens).trans (List.suffix_cons c more)
      · contradiction
    have taken : Abreast (state.taken (.string []) after) (state'.taken (.string []) (crlf after)) :=
      abreast.taken suffix rfl
    refine ⟨⟨?_, rfl⟩, .inl { taken with pending := ?_ }⟩
    · rw [abreast.spaced]
      exact unplaced_singleton rfl _ _ _
    · simp [abreast.pending]
  | none =>
    refine (plainToken_crlf front front' abreast.last abreast.spaced readers plain short unbroken seen).bind ?_
    rintro ⟨lexeme, after⟩ ⟨lexeme', _⟩ hplain ⟨same, rfl⟩
    have suffix := front ▸ (plainToken_suffix front hplain).trans (List.suffix_cons c more)
    refine ⟨⟨?_, rfl⟩, .inl (abreast.taken suffix same)⟩
    rw [abreast.spaced]
    exact unplaced_singleton same _ _ _

/-- Within a line both scans take the same step. -/
theorem step_crlf : Both (Option.Rel Along) (step code state) (step code' state') := by
  have front' : state'.cursor.rest = c :: crlf more := by rw [abreast.level.rest, front, crlf_cons inline]
  have begins := startsWith_crlf "=begin" (by decide) (c :: more)
  have marked := atDataMark_crlf (c :: more)
  have past := afterBlockComment_crlf true false (c :: more)
  rw [crlf_cons inline] at begins marked past
  unfold step
  simp only [front, front', begins, marked, past, abreast.level.fresh]
  split
  · cases ends : afterBlockComment true false (c :: more) with
    | none => trivial
    | some after =>
      have suffix : after <:+ state.cursor.rest := front ▸ afterBlockComment_suffix ends
      exact .some ⟨⟨rfl, rfl⟩, .inl { abreast with level := abreast.level.moveTo suffix }⟩
  split
  · exact .none
  split
  · exact .some ⟨⟨rfl, rfl⟩, .inl { abreast with level := abreast.level.next front inline, spaced := rfl }⟩
  have single : ¬(c = '\\' ∧ more.head? = some '\n') := by
    rintro ⟨rfl, newline⟩
    rw [overlooksReturn_of_line front inline newline] at seen
    contradiction
  have single' : ¬(c = '\\' ∧ (crlf more).head? = some '\n') := fun continued => head_crlf_ne more continued.2
  rw [if_neg single, if_neg single']
  split
  · have near := near_pastComment abreast
    rw [front, front'] at near
    exact .some ⟨⟨rfl, rfl⟩, near⟩
  · exact (token_crlf readers abreast front plain inline short unbroken seen).map fun _ _ _ along => .some along

end Steps

theorem step_newline (line : state.cursor.rest = '\n' :: more) : step code state = (newline code state).map some := by
  rw [step_of_atCode line (atCode_of_head line (by decide) (by decide))]
  rfl

/-! Runs -/

/-- What two scans find is the same but for positions. -/
def SameRun (found found' : List Token × List Segments) : Prop :=
  unplaced found'.1 = unplaced found.1 ∧ found'.2.map unplacedSegments = found.2.map unplacedSegments

/-- Over a carriage return a scan only takes a step. -/
theorem run_return (front : state.cursor.rest = '\r' :: text) (fuel : Nat) : run code (fuel + 1) state =
    run code fuel { state with cursor := state.cursor.next, spaced := true } := by
  have blank : step code state = .ok (some ⟨[], [], { state with cursor := state.cursor.next, spaced := true }⟩) :=
    step_eq_some_iff.2 (.blank front (atCode_of_head front (by decide) (by decide)) (by decide))
  rw [run, blank]
  show (run code fuel _ >>= fun found => pure ([] ++ found.1, [] ++ found.2)) = _
  cases run code fuel { state with cursor := state.cursor.next, spaced := true } <;> rfl

/-- Scans whose steps find the same find the same to the end, if those behind the steps do. -/
theorem run_of_step {fuel fuel' : Nat} (steps : Both (Option.Rel Along) (step code state) (step code' state'))
    (openers : state'.pending.map Prod.fst = state.pending.map Prod.fst)
    (onward : ∀ found found', Step code state found → Step code' state' found' → Near found.state found'.state →
      Both SameRun (run code fuel found.state) (run code' fuel' found'.state)) :
    Both SameRun (run code (fuel + 1) state) (run code' (fuel' + 1) state') := by
  refine steps.results.bind ?_
  rintro _ _ - ⟨hstep, hstep', along⟩
  cases along with
  | none =>
    cases pending : state.pending with
    | nil =>
      obtain pending' : state'.pending = [] := by simpa [pending] using openers
      simp only [pending']
      exact ⟨unplaced_singleton rfl _ _ _, rfl⟩
    | cons opened others =>
      obtain ⟨opened', others', pending'⟩ : ∃ opened' others', state'.pending = opened' :: others' := by
        refine List.exists_cons_of_ne_nil fun none => ?_
        simp [pending, none] at openers
      simp only [pending']
      trivial
  | some along =>
    refine (onward _ _ (step_eq_some_iff.1 hstep) (step_eq_some_iff.1 hstep') along.near).bind ?_
    rintro ⟨tokens, bodies⟩ ⟨tokens', bodies'⟩ - ⟨sameTokens, sameBodies⟩
    refine ⟨?_, ?_⟩
    · rw [unplaced_append, unplaced_append, along.alike.tokens, sameTokens]
    · rw [List.map_append, List.map_append, along.alike.bodies, sameBodies]

/-- The scans come to the ends of their texts together. -/
theorem run_crlf (readers : Mutual bound code code') {fuel fuel' : Nat} (near : Near state state')
    (enough : state.cursor.rest.length < fuel) (enough' : state'.cursor.rest.length < fuel')
    (plain : '\r' ∉ state.cursor.rest) (short : state.cursor.rest.length ≤ bound)
    (sound : ∀ tokens bodies last, Reaches code state tokens bodies last →
      '\n' ∉ held last ∧ overlooksReturn last = false) :
    Both SameRun (run code fuel state) (run code' fuel' state') := by
  induction fuel generalizing state state' fuel' with
  | zero => exact (Nat.not_lt_zero _ enough).elim
  | succ fuel ih =>
    obtain ⟨unbroken, seen⟩ := sound _ _ _ (.refl state)
    have onward {state' : State} {fuel' : Nat} (enough' : state'.cursor.rest.length < fuel' + 1) (found found' : Found)
        (hstep : Step code state found) (hstep' : Step code' state' found') (near : Near found.state found'.state) :
        Both SameRun (run code fuel found.state) (run code' fuel' found'.state) := by
      obtain ⟨suffix, less⟩ := hstep.suffix
      obtain ⟨-, less'⟩ := hstep'.suffix
      refine ih near (by omega) (by omega) (fun back => plain (suffix.subset back)) (by omega) ?_
      exact fun tokens bodies last reached => sound _ _ last (.next hstep reached)
    have atLine {more : List Char} {state' : State} {fuel' : Nat} (line : AtLine state state' more)
        (enough' : state'.cursor.rest.length < fuel' + 1) :
        Both SameRun (run code (fuel + 1) state) (run code' (fuel' + 1) state') := by
      refine run_of_step ?_ line.pending (onward enough')
      rw [step_newline line.rest, step_newline line.rest']
      refine (newline_crlf readers line ?_ unbroken).map fun _ _ _ along => .some along
      rw [line.rest, List.length_cons] at short
      omega
    obtain ⟨fuel', rfl⟩ := Nat.exists_eq_succ_of_ne_zero (Nat.ne_zero_of_lt enough')
    obtain abreast | ⟨more, line⟩ := near
    · cases front : state.cursor.rest with
      | nil =>
        have front' : state'.cursor.rest = [] := by rw [abreast.level.rest, front]; rfl
        refine run_of_step ?_ abreast.pending (onward enough')
        rw [step_eq_none_iff.2 (.inl front), step_eq_none_iff.2 (.inl front')]
        exact .none
      | cons c more =>
        by_cases newline : c = '\n'
        · subst newline
          have front' : state'.cursor.rest = '\r' :: '\n' :: crlf more := by rw [abreast.level.rest, front, crlf_line]
          have next : state'.cursor.next.rest = '\n' :: crlf more := by rw [rest_next, front', List.tail_cons]
          rw [front', List.length_cons] at enough'
          obtain ⟨fuel', rfl⟩ := Nat.exists_eq_succ_of_ne_zero (show fuel' ≠ 0 by simp at enough'; omega)
          rw [run_return front']
          refine atLine ⟨front, next, abreast.last, abreast.pending⟩ ?_
          simp only [next]
          omega
        · rw [front, List.mem_cons, not_or] at plain
          exact run_of_step (step_crlf readers abreast front plain.2 newline short unbroken seen) abreast.pending
            (onward enough')
    · exact atLine line enough'

end Formulary.LineEnd
