import Formulary.Proofs.Token.Twin

/-! What a scan does in a step before the point where two texts part, its twin does too. -/

namespace Formulary.Scan

open Body Gap Result Seam Spelling

variable {code code' : Reader} {bound : Nat} {rest rest' text : List Char} {state state' : State}

theorem Exchange.head_line (exchange : Exchange rest rest') (h : rest'.head? = some '\n') : rest.head? = some '\n' := by
  cases rest with
  | nil =>
    rw [exchange.both.1 rfl] at h
    contradiction
  | cons c more => rw [exchange.line c rfl]; rfl

namespace Parting

variable (parting : Parting rest rest')
include parting

theorem dropWhile_eq : rest.dropWhile (· ≠ '\n') = rest := by
  cases rest with
  | nil => rfl
  | cons c more => rw [parting.line c rfl]; rfl

theorem quiet : startsWith rest "=begin" = false ∧ atDataMark rest = false := by
  constructor
  · exact startsWith_append parting.soft "=begin" (by decide) []
  · unfold atDataMark
    rw [show startsWith rest "__END__" = false from startsWith_append parting.soft "__END__" (by decide) []]
    rfl

end Parting

/-! Cursors -/

theorem next_fresh {cursor : Cursor} {c : Char} {more : List Char} (front : cursor.rest = c :: more) :
    cursor.next.fresh = decide (c = '\n') := by
  obtain ⟨_, pos, fresh⟩ := cursor
  subst front
  rfl

/-- Cursors that moved over the same text are both at the start of a line or both are not. -/
theorem skip_fresh_eq {n : Nat} {cursor cursor' : Cursor} (front : cursor.rest = text ++ rest)
    (front' : cursor'.rest = text ++ rest') (within : n ≤ text.length)
    (same : 0 < n ∨ cursor'.fresh = cursor.fresh) : (cursor'.skip n).fresh = (cursor.skip n).fresh := by
  induction n generalizing text cursor cursor' with
  | zero => exact same.resolve_left (Nat.lt_irrefl 0)
  | succ n ih =>
    cases text with
    | nil => simp at within
    | cons c more =>
      rw [List.cons_append] at front front'
      refine @ih more cursor.next cursor'.next ?_ ?_ (Nat.le_of_succ_le_succ within) (.inr ?_)
      · rw [rest_next, front, List.tail_cons]
      · rw [rest_next, front', List.tail_cons]
      · rw [next_fresh front, next_fresh front']

section Move

variable {cursor cursor' : Cursor} {after : List Char} (front : cursor.rest = text ++ rest)
  (front' : cursor'.rest = text ++ rest')

include front in
theorem rest_moveTo_append (suffix : after <:+ text) : (cursor.moveTo (after ++ rest)).rest = after ++ rest := by
  obtain ⟨before, rfl⟩ := suffix
  refine rest_moveTo ?_
  rw [front, List.append_assoc]
  exact List.suffix_append before _

include front front' in
theorem moveTo_fresh_eq (same : after.length < text.length ∨ cursor'.fresh = cursor.fresh) :
    (cursor'.moveTo (after ++ rest')).fresh = (cursor.moveTo (after ++ rest)).fresh := by
  have steps : cursor.rest.length - (after ++ rest).length = text.length - after.length := by
    rw [front, List.length_append, List.length_append]
    omega
  have steps' : cursor'.rest.length - (after ++ rest').length = text.length - after.length := by
    rw [front', List.length_append, List.length_append]
    omega
  unfold Cursor.moveTo
  rw [steps, steps']
  refine skip_fresh_eq front front' (by omega) (same.imp_left fun less => by omega)

end Move

theorem suffix_of_append {after : List Char} (h : after ++ rest <:+ text ++ rest) : after <:+ text := by
  obtain ⟨before, eq⟩ := h
  rw [← List.append_assoc] at eq
  exact ⟨before, List.append_cancel_right eq⟩

/-! Layout -/

theorem afterLayout_append (exchange : Exchange rest rest') (inComment : Bool) (text : List Char) :
    afterLayout inComment (text ++ rest') = afterLayout inComment (text ++ rest) ∨
      ∃ behind, afterLayout inComment (text ++ rest) = behind ++ rest ∧
        afterLayout inComment (text ++ rest') = behind ++ rest' := by
  induction text generalizing inComment with
  | nil => exact .inl (exchange.layout inComment)
  | cons c more ih =>
    rw [List.cons_append, List.cons_append]
    unfold afterLayout
    split
    · exact ih _
    · split
      · exact ih _
      · split
        · exact ih _
        · exact .inr ⟨c :: more, rfl, rfl⟩

theorem continuesWithDot_append (exchange : Exchange rest rest') (text : List Char) :
    continuesWithDot (text ++ rest') = continuesWithDot (text ++ rest) := by
  unfold continuesWithDot
  obtain same | ⟨behind, eq, eq'⟩ := afterLayout_append exchange false text
  · rw [same]
  · rw [eq, eq']
    have safe : isSolid "&." = true := by decide
    have dot : isSolid "." = true := by decide
    have range : isSolid ".." = true := by decide
    simp only [startsWith_append exchange.soft', startsWith_append exchange.soft, safe, dot, range]

/-- Before a blank the mark is no mark, but then it is none before a newline or the end either. -/
theorem atDataMark_append (parting : Parting rest rest') (h : atDataMark (text ++ rest) = false) :
    atDataMark (text ++ rest') = false := by
  have mark : isSolid "__END__" = true := by decide
  unfold atDataMark at h ⊢
  rw [startsWith_append parting.soft _ mark] at h
  rw [startsWith_append parting.soft' _ mark]
  cases marked : startsWith text "__END__" with
  | false => rfl
  | true =>
    obtain ⟨behind, rfl⟩ := List.isPrefixOf_iff_prefix.1 marked
    have past (more : List Char) : ("__END__".toList ++ more).drop 7 = more := rfl
    rw [marked, Bool.true_and, List.append_assoc, past] at h
    rw [Bool.true_and, List.append_assoc, past]
    cases behind with
    | cons c more => exact h
    | nil =>
      cases rest with
      | nil => cases h
      | cons c more =>
        obtain rfl := parting.line c rfl
        cases h

namespace Twin

variable (twin : Twin rest rest' text state state')
include twin

section Front

variable (parting : Parting rest rest')
include parting

theorem atBlockComment_eq : atBlockComment state' = atBlockComment state := by
  have begins : isSolid "=begin" = true := by decide
  have front : startsWith state.cursor.rest "=begin" = startsWith text "=begin" := by
    rw [twin.front, startsWith_append parting.soft _ begins]
  have front' : startsWith state'.cursor.rest "=begin" = startsWith text "=begin" := by
    rw [twin.front', startsWith_append parting.soft' _ begins]
  unfold atBlockComment
  rw [front, front']
  obtain same | ⟨plain, -⟩ := twin.fresh
  · rw [same]
  · rw [← front, plain, Bool.and_false, Bool.and_false]

theorem atCode (atCode : AtCode state) : AtCode state' := by
  obtain ⟨plain, program⟩ := atCode
  refine ⟨by rw [twin.atBlockComment_eq parting, plain], ?_⟩
  unfold atData at program ⊢
  have unmarked (h : atDataMark state.cursor.rest = false) : atDataMark state'.cursor.rest = false := by
    rw [twin.front] at h
    rw [twin.front']
    exact atDataMark_append parting h
  obtain same | ⟨-, program⟩ := twin.fresh
  · rw [same]
    obtain stale | program := Bool.and_eq_false_iff.1 program
    · rw [stale, Bool.false_and]
    · rw [unmarked program, Bool.and_false]
  · rw [unmarked program, Bool.and_false]

end Front

/-- Twins move on alike. -/
theorem moveTo {after : List Char} (suffix : after <:+ text)
    (same : after.length < text.length ∨ state'.cursor.fresh = state.cursor.fresh) :
    Twin rest rest' after { state with cursor := state.cursor.moveTo (after ++ rest) }
      { state' with cursor := state'.cursor.moveTo (after ++ rest') } where
  front := rest_moveTo_append twin.front suffix
  front' := rest_moveTo_append twin.front' suffix
  fresh := .inl (moveTo_fresh_eq twin.front twin.front' same)
  spaced := twin.spaced
  last := twin.last
  pending := twin.pending

end Twin

/-! Heredocs -/

theorem readBodies_twin (refines : Refines bound code code') (exchange : Exchange rest rest')
    {pending pending' : List (Heredoc.Opener × Position)} (openers : pending'.map Prod.fst = pending.map Prod.fst)
    {cursor cursor' behind : Cursor} {bodies : List Segments} (front : cursor.rest = text ++ rest)
    (front' : cursor'.rest = text ++ rest') (fresh : cursor'.fresh = cursor.fresh) (short : text.length ≤ bound)
    (h : readBodies code cursor pending = .ok (bodies, behind)) (long : rest.length ≤ behind.rest.length) :
    ∃ after bodies' behind', after <:+ text ∧ behind.rest = after ++ rest ∧ behind'.rest = after ++ rest' ∧
      readBodies code' cursor' pending' = .ok (bodies', behind') ∧ behind'.fresh = behind.fresh ∧
      bodies'.map unplacedSegments = bodies.map unplacedSegments := by
  induction pending generalizing pending' text cursor cursor' bodies with
  | nil =>
    obtain rfl : pending' = [] := by simpa using openers
    obtain ⟨rfl, rfl⟩ := Prod.mk.inj (Except.ok.inj h)
    exact ⟨text, [], cursor', List.suffix_refl _, front, front', rfl, fresh, rfl⟩
  | cons opened more ih =>
    obtain ⟨opener, pos⟩ := opened
    cases pending' with
    | nil => simp at openers
    | cons opened' more' =>
      obtain ⟨opener', pos'⟩ := opened'
      obtain ⟨rfl, others⟩ : opener' = opener ∧ more'.map Prod.fst = more.map Prod.fst := by simpa using openers
      obtain ⟨lines, next, found, bodies, htake, hfound, hmore, rfl⟩ := readBodies_cons_iff.1 h
      have moved := rest_moveTo (takeBody_suffix htake)
      have ahead : rest.length ≤ next.length := by
        have := (readBodies_suffix hmore).length_le
        rw [moved] at this
        omega
      rw [front] at htake
      obtain ⟨inner, rfl⟩ := exists_eq_append (takeBody_suffix htake) ahead
      have suffix := suffix_of_append (takeBody_suffix htake)
      have taken := length_of_takeBody htake
      have within : (opener'.bodyText lines).length ≤ bound := by
        have := length_bodyText_le opener' lines
        simp only [List.length_append, List.length_nil] at taken
        omega
      obtain ⟨found', hfound', same⟩ := segments_refines refines ⟨cursor'.pos.line, 1⟩ within hfound
      obtain ⟨after, bodies', behind', suffix', eq, eq', hmore', fresh', others'⟩ :=
        ih others moved (rest_moveTo_append front' suffix) (moveTo_fresh_eq front front' (.inr fresh))
          (Nat.le_trans suffix.length_le short) hmore
      refine ⟨after, found' :: bodies', behind', suffix'.trans suffix, eq, eq', ?_, fresh', ?_⟩
      · refine readBodies_cons_iff.2 ⟨lines, inner ++ rest', found', bodies', ?_, hfound', hmore', rfl⟩
        rw [front']
        exact takeBody_append exchange.both htake
      · rw [List.map_cons, List.map_cons, same, others']

/-! Steps -/

/-- Two steps find the same but for positions. -/
structure Alike (found found' : Found) : Prop where
  tokens : unplaced found'.tokens = unplaced found.tokens
  bodies : found'.bodies.map unplacedSegments = found.bodies.map unplacedSegments

variable {found : Found}

theorem newline_eq_ok {bodies : List Segments} {cursor : Cursor}
    (h : readBodies code state.cursor.next state.pending = .ok (bodies, cursor)) :
    newline code state = .ok (if continuesWithDot cursor.rest || !(state.last.any (!·.isSeparator)) then
        ⟨[], bodies, { state with cursor, spaced := true, pending := [] }⟩
      else ⟨[⟨.newline, state.cursor.pos, false⟩], bodies,
        { state with cursor, spaced := true, pending := [], last := some .newline }⟩) := by
  unfold newline
  rw [h]
  dsimp only [bind, Except.bind]
  split <;> rfl

theorem newline_twin (refines : Refines bound code code') (exchange : Exchange rest rest') {more : List Char}
    (twin : Twin rest rest' ('\n' :: more) state state') (short : more.length ≤ bound)
    (h : newline code state = .ok found) (long : rest.length ≤ found.state.cursor.rest.length) :
    ∃ found' after, newline code' state' = .ok found' ∧ Alike found found' ∧ after <:+ more ∧
      Twin rest rest' after found.state found'.state := by
  obtain ⟨bodies, cursor, hbodies, rfl⟩ := newline_cases h
  have front : state.cursor.next.rest = more ++ rest := by rw [rest_next, twin.front]; rfl
  have front' : state'.cursor.next.rest = more ++ rest' := by rw [rest_next, twin.front']; rfl
  have fresh : state'.cursor.next.fresh = state.cursor.next.fresh := by
    rw [next_fresh twin.front, next_fresh twin.front']
  have long : rest.length ≤ cursor.rest.length := by
    split at long <;> exact long
  obtain ⟨after, bodies', cursor', suffix, eq, eq', hbodies', fresh', same⟩ :=
    readBodies_twin refines exchange twin.pending front front' fresh short hbodies long
  refine ⟨_, after, newline_eq_ok hbodies', ?_⟩
  rw [twin.last.separable, eq, eq', continuesWithDot_append exchange]
  split
  · exact ⟨⟨rfl, same⟩, suffix, ⟨eq, eq', .inl fresh', rfl, twin.last, rfl⟩⟩
  · exact ⟨⟨rfl, same⟩, suffix, ⟨eq, eq', .inl fresh', rfl, .refl _, rfl⟩⟩

/-- Whether a sign opens a heredoc does not hang on the layout behind the text. -/
theorem heredoc?_twin (parting : Parting rest rest') {more : List Char}
    (twin : Twin rest rest' ('<' :: more) state state') :
    ∃ opened : Option (Heredoc.Opener × List Char),
      heredoc? state = opened.map (fun (opener, behind) => (opener, behind ++ rest)) ∧
      heredoc? state' = opened.map (fun (opener, behind) => (opener, behind ++ rest')) := by
  unfold heredoc?
  rw [twin.front, twin.front', readOpener_append parting.soft, readOpener_append parting.soft']
  cases more with
  | nil => exact ⟨none, ite_self none, ite_self none⟩
  | cons c others =>
    rw [operandExpected_twin parting twin nofun]
    split
    · exact ⟨_, rfl, rfl⟩
    · exact ⟨none, rfl, rfl⟩

theorem token_of_heredoc {opener : Heredoc.Opener} {after : List Char}
    (opens : heredoc? state = some (opener, after)) : token code state '<' =
      .ok ⟨[⟨.string [], state.cursor.pos, state.spaced⟩], [],
        { state.taken (.string []) after with pending := state.pending ++ [(opener, state.cursor.pos)] }⟩ := by
  unfold token
  rw [if_pos rfl, opens]

theorem token_of_plain {c : Char} {lexeme : Lexeme Token} {after : List Char}
    (closed : c = '<' → heredoc? state = none) (h : plainToken code state c = .ok (lexeme, after)) :
    token code state c =
      .ok ⟨[⟨lexeme, state.cursor.pos, state.spaced⟩], [], state.taken lexeme after⟩ := by
  have none : (if c = '<' then heredoc? state else none) = none := by
    split
    · exact closed ‹_›
    · rfl
  unfold token
  rw [none, h]
  rfl

/-- Twins that take the same token are still twins. -/
theorem Twin.taken {c : Char} {more after : List Char} {lexeme lexeme' : Lexeme Token}
    (twin : Twin rest rest' (c :: more) state state') (suffix : after <:+ more)
    (same : lexeme'.place nowhere = lexeme.place nowhere) :
    Twin rest rest' after (state.taken lexeme (after ++ rest)) (state'.taken lexeme' (after ++ rest')) :=
  { twin.moveTo (suffix.trans (List.suffix_cons c more)) (.inl (Nat.lt_succ_of_le suffix.length_le)) with
    spaced := rfl
    last := .of_unplaced (congrArg some same) }

theorem token_twin (refines : Refines bound code code') (parting : Parting rest rest') {c : Char} {more : List Char}
    (twin : Twin rest rest' (c :: more) state state') (short : (c :: more).length ≤ bound)
    (safe : rest'.head? = some '\r' → ¬Exposed state (c :: more)) (h : token code state c = .ok found)
    (long : rest.length ≤ found.state.cursor.rest.length) :
    ∃ found' after, token code' state' c = .ok found' ∧ Alike found found' ∧ after <:+ more ∧
      Twin rest rest' after found.state found'.state := by
  have placed {lexeme lexeme' : Lexeme Token} (same : lexeme'.place nowhere = lexeme.place nowhere) :
      unplaced [⟨lexeme', state'.cursor.pos, state'.spaced⟩] = unplaced [⟨lexeme, state.cursor.pos, state.spaced⟩] :=
    twin.spaced ▸ unplaced_singleton same _ _ _
  have split {taken : List Char} (within : taken <:+ more ++ rest)
      (long : rest.length ≤ (state.cursor.moveTo taken).rest.length) :
      ∃ after, taken = after ++ rest ∧ after <:+ more := by
    rw [rest_moveTo (twin.front ▸ within.trans (List.suffix_cons c _))] at long
    obtain ⟨after, rfl⟩ := exists_eq_append within long
    exact ⟨after, rfl, suffix_of_append within⟩
  obtain ⟨opener, taken, rfl, opens, rfl⟩ | ⟨closed, lexeme, taken, hplain, rfl⟩ := token_cases h
  · obtain ⟨after, rfl, suffix⟩ := split (heredoc?_suffix twin.front opens) long
    obtain ⟨opened, before, before'⟩ := heredoc?_twin parting twin
    rw [opens] at before
    obtain ⟨⟨opener', inner⟩, rfl, same⟩ := Option.map_eq_some_iff.1 before.symm
    obtain ⟨rfl, eq⟩ : opener' = opener ∧ inner ++ rest = after ++ rest := Prod.mk.inj same
    obtain rfl := List.append_cancel_right eq
    refine ⟨_, inner, token_of_heredoc before', ⟨placed rfl, rfl⟩, suffix, { twin.taken suffix rfl with
      pending := ?_ }⟩
    rw [List.map_append, List.map_append, twin.pending]
    rfl
  · obtain ⟨after, rfl, suffix⟩ := split (plainToken_suffix twin.front hplain) long
    obtain ⟨lexeme', hplain', same⟩ := plainToken_twin refines parting twin short safe hplain
    have closed' : c = '<' → heredoc? state' = none := by
      rintro rfl
      obtain ⟨opened, before, before'⟩ := heredoc?_twin parting twin
      rw [closed rfl] at before
      rw [before', Option.map_eq_none_iff.1 before.symm, Option.map_none]
    exact ⟨_, after, token_of_plain closed' hplain', ⟨placed same, rfl⟩, suffix, twin.taken suffix same⟩

/-- Behind a comment the twins are still twins, or the comment takes what the line goes on with in the other text. -/
theorem Twin.pastComment (parting : Parting rest rest') {more : List Char}
    (twin : Twin rest rest' ('#' :: more) state state') :
    ∃ after behind, after.length < ('#' :: more).length ∧
      Twin rest behind after
        { state with cursor := state.cursor.moveTo (state.cursor.rest.dropWhile (· ≠ '\n')) }
        { state' with cursor := state'.cursor.moveTo (state'.cursor.rest.dropWhile (· ≠ '\n')) } ∧
      (behind = rest' ∨ after = [] ∧ behind = rest'.dropWhile (· ≠ '\n')) := by
  have taken : (('#' :: more).dropWhile (· ≠ '\n')).length < ('#' :: more).length := by
    rw [List.dropWhile_cons_of_pos (by decide)]
    exact Nat.lt_succ_of_le (List.dropWhile_suffix _).length_le
  rw [twin.front, twin.front', List.dropWhile_append, List.dropWhile_append]
  cases within : (('#' :: more).dropWhile (· ≠ '\n')).isEmpty with
  | false =>
    simp only [Bool.false_eq_true, if_false]
    exact ⟨_, rest', taken, twin.moveTo (List.dropWhile_suffix _) (.inl taken), .inl rfl⟩
  | true =>
    simp only [if_true, parting.dropWhile_eq]
    have moved : (state.cursor.moveTo rest).rest = rest := rest_moveTo (twin.front ▸ List.suffix_append _ rest)
    refine ⟨[], _, Nat.zero_lt_succ _, ⟨moved, ?_, .inr ?_, twin.spaced, twin.last, twin.pending⟩, .inr ⟨rfl, rfl⟩⟩
    · exact rest_moveTo (twin.front' ▸ (List.dropWhile_suffix _).trans (List.suffix_append _ rest'))
    · rw [moved]
      exact parting.quiet

/-- As long as a step ends before the point where the texts part, the twin takes the same step. Only a comment
may reach the point. -/
theorem step_twin (refines : Refines bound code code') (exchange : Exchange rest rest')
    (twin : Twin rest rest' text state state') (short : text.length ≤ bound)
    (safe : rest'.head? = some '\r' → ¬Exposed state text) (h : Step code state found)
    (long : rest.length ≤ found.state.cursor.rest.length) :
    ∃ found' after behind, Step code' state' found' ∧ Alike found found' ∧ after.length < text.length ∧
      Twin rest behind after found.state found'.state ∧
      (behind = rest' ∨ after = [] ∧ behind = rest'.dropWhile (· ≠ '\n')) := by
  have ahead := h.suffix.2
  cases text with
  | nil =>
    rw [twin.front, List.nil_append] at ahead
    omega
  | cons c more =>
    have front := twin.front
    have front' := twin.front'
    rw [List.cons_append] at front front'
    cases h with
    | blockComment some begins behind =>
      have suffix := afterBlockComment_suffix behind
      rw [rest_moveTo suffix] at ahead long
      rw [twin.front] at suffix behind ahead
      obtain ⟨after, rfl⟩ := exists_eq_append suffix long
      have less : after.length < (c :: more).length := by
        simp only [List.length_append] at ahead
        omega
      refine ⟨_, after, rest', .blockComment (by simp [front']) ?_ ?_, ⟨rfl, rfl⟩, less,
        twin.moveTo (suffix_of_append suffix) (.inl less), .inl rfl⟩
      · rw [twin.atBlockComment_eq exchange.toParting, begins]
      · rw [twin.front']
        exact afterBlockComment_append exchange.soft exchange.soft' exchange.both behind
    | blank front₁ atCode blank =>
      obtain ⟨rfl, -⟩ := List.cons.inj (front.symm.trans front₁)
      refine ⟨_, more, rest', .blank front' (twin.atCode exchange.toParting atCode) blank, ⟨rfl, rfl⟩, Nat.lt_succ_self _,
        ⟨?_, ?_, .inl ?_, rfl, twin.last, twin.pending⟩, .inl rfl⟩
      · rw [rest_next, front, List.tail_cons]
      · rw [rest_next, front', List.tail_cons]
      · rw [next_fresh front, next_fresh front']
    | continuation front₁ atCode =>
      obtain ⟨rfl, eq⟩ := List.cons.inj (front.symm.trans front₁)
      rw [rest_skip, front₁] at long
      cases more with
      | nil =>
        rw [List.nil_append] at eq
        simp only [eq, List.drop_succ_cons, List.drop_zero, List.length_cons] at long
        omega
      | cons d others =>
        obtain ⟨rfl, -⟩ := List.cons.inj eq
        refine ⟨_, others, rest', .continuation front' (twin.atCode exchange.toParting atCode), ⟨rfl, rfl⟩,
          Nat.lt_succ_of_lt (Nat.lt_succ_self _), ⟨?_, ?_, .inl ?_, rfl, twin.last, twin.pending⟩, .inl rfl⟩
        · rw [rest_skip, front]
          rfl
        · rw [rest_skip, front']
          rfl
        · exact skip_fresh_eq twin.front twin.front' (Nat.le_add_left 2 _) (.inl Nat.two_pos)
    | comment front₁ atCode =>
      obtain ⟨rfl, -⟩ := List.cons.inj (front.symm.trans front₁)
      obtain ⟨after, behind, taken, twin', parted⟩ := twin.pastComment exchange.toParting
      exact ⟨_, after, behind, .comment front' (twin.atCode exchange.toParting atCode), ⟨rfl, rfl⟩, taken, twin', parted⟩
    | newline front₁ atCode h =>
      obtain ⟨rfl, -⟩ := List.cons.inj (front.symm.trans front₁)
      obtain ⟨found', after, h', alike, suffix, twin'⟩ :=
        newline_twin refines exchange twin (Nat.le_of_succ_le short) h long
      exact ⟨found', after, rest', .newline front' (twin.atCode exchange.toParting atCode) h', alike,
        Nat.lt_succ_of_le suffix.length_le, twin', .inl rfl⟩
    | token front₁ atCode solid single hash line h =>
      obtain ⟨rfl, rfl⟩ := List.cons.inj (front.symm.trans front₁)
      obtain ⟨found', after, h', alike, suffix, twin'⟩ := token_twin refines exchange.toParting twin short safe h long
      refine ⟨found', after, rest', .token front' (twin.atCode exchange.toParting atCode) solid ?_ hash line h', alike,
        Nat.lt_succ_of_le suffix.length_le, twin', .inl rfl⟩
      rintro ⟨rfl, line'⟩
      refine single ⟨rfl, ?_⟩
      cases more with
      | cons d others => exact line'
      | nil => exact exchange.head_line line'

end Formulary.Scan
