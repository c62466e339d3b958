import Formulary.Proofs.Token.Progress

/-! What a step of the scan can do, and that it takes at least one character. -/

namespace Formulary.Scan

open Body Gap Result

def atBlockComment (state : State) : Bool :=
  state.cursor.fresh && startsWith state.cursor.rest "=begin"

def atData (state : State) : Bool :=
  state.cursor.fresh && atDataMark state.cursor.rest

/-- Neither a block comment nor the data behind the program text begins here. -/
def AtCode (state : State) : Prop :=
  atBlockComment state = false ∧ atData state = false

/-- The tokens and bodies that a step finds, and the state behind them. -/
inductive Step (code : Reader) (state : State) : Found → Prop
  | blockComment {after : List Char} : state.cursor.rest ≠ [] → atBlockComment state = true →
      afterBlockComment true false state.cursor.rest = some after →
      Step code state ⟨[], [], { state with cursor := state.cursor.moveTo after }⟩
  | blank {c : Char} {more : List Char} : state.cursor.rest = c :: more → AtCode state → isSpace c = true →
      Step code state ⟨[], [], { state with cursor := state.cursor.next, spaced := true }⟩
  | continuation {more : List Char} : state.cursor.rest = '\\' :: '\n' :: more → AtCode state →
      Step code state ⟨[], [], { state with cursor := state.cursor.skip 2, spaced := true }⟩
  | comment {more : List Char} : state.cursor.rest = '#' :: more → AtCode state →
      Step code state
        ⟨[], [], { state with cursor := state.cursor.moveTo (state.cursor.rest.dropWhile (· ≠ '\n')) }⟩
  | newline {more : List Char} {found : Found} : state.cursor.rest = '\n' :: more → AtCode state →
      newline code state = .ok found → Step code state found
  | token {c : Char} {more : List Char} {found : Found} : state.cursor.rest = c :: more → AtCode state →
      isSpace c = false → ¬(c = '\\' ∧ more.head? = some '\n') → c ≠ '#' → c ≠ '\n' →
      token code state c = .ok found → Step code state found

variable {code : Reader} {state : State} {found : Found}

/-- No block comment and no mark of data begins with this character. -/
theorem atCode_of_head {c : Char} {more : List Char} (front : state.cursor.rest = c :: more) (equals : c ≠ '=')
    (underscore : c ≠ '_') : AtCode state := by
  have block : startsWith (c :: more) "=begin" = false := by simp [startsWith, List.isPrefixOf, Ne.symm equals]
  have mark : startsWith (c :: more) "__END__" = false := by simp [startsWith, List.isPrefixOf, Ne.symm underscore]
  constructor
  · rw [atBlockComment, front, block, Bool.and_false]
  · rw [atData, front, atDataMark, mark, Bool.false_and, Bool.and_false]

theorem map_some_eq_ok_iff {α : Type} {outcome : Except Malformed α} {value : α} :
    outcome.map some = .ok (some value) ↔ outcome = .ok value := by
  cases outcome <;> simp [Except.map]

theorem map_some_ne_ok_none {α : Type} {outcome : Except Malformed α} : outcome.map some ≠ .ok none := by
  cases outcome <;> simp [Except.map]

theorem step_of_atCode {c : Char} {more : List Char} (front : state.cursor.rest = c :: more)
    (atCode : AtCode state) : step code state =
      if isSpace c then .ok (some ⟨[], [], { state with cursor := state.cursor.next, spaced := true }⟩)
      else if c = '\\' ∧ more.head? = some '\n' then
        .ok (some ⟨[], [], { state with cursor := state.cursor.skip 2, spaced := true }⟩)
      else if c = '#' then
        .ok (some ⟨[], [], { state with cursor := state.cursor.moveTo (state.cursor.rest.dropWhile (· ≠ '\n')) }⟩)
      else if c = '\n' then (newline code state).map some
      else (token code state c).map some := by
  obtain ⟨plain, program⟩ := atCode
  unfold atBlockComment at plain
  unfold atData at program
  unfold step
  simp only [front] at plain program ⊢
  rw [plain, program]
  rfl

theorem step_eq_some_iff : step code state = .ok (some found) ↔ Step code state found := by
  constructor
  · intro h
    unfold step at h
    dsimp only at h
    split at h
    · cases Except.ok.inj h
    · rename_i c more front
      split at h
      · rename_i begins
        split at h
        · rename_i after behind
          obtain rfl := Option.some.inj (Except.ok.inj h)
          exact .blockComment (by simp [front]) begins behind
        · contradiction
      · rename_i plain
        split at h
        · cases Except.ok.inj h
        · rename_i program
          have atCode : AtCode state := ⟨Bool.eq_false_iff.2 plain, Bool.eq_false_iff.2 program⟩
          split at h
          · rename_i blank
            obtain rfl := Option.some.inj (Except.ok.inj h)
            exact .blank front atCode blank
          · rename_i solid
            split at h
            · rename_i continued
              obtain ⟨rfl, line⟩ := continued
              obtain ⟨rest, rfl⟩ := List.head?_eq_some_iff.1 line
              obtain rfl := Option.some.inj (Except.ok.inj h)
              exact .continuation front atCode
            · rename_i single
              split at h
              · rename_i hash
                subst hash
                obtain rfl := Option.some.inj (Except.ok.inj h)
                exact .comment front atCode
              · rename_i hash
                split at h
                · rename_i line
                  subst line
                  exact .newline front atCode (map_some_eq_ok_iff.1 h)
                · rename_i line
                  exact .token front atCode (Bool.eq_false_iff.2 solid) single hash line (map_some_eq_ok_iff.1 h)
  · intro h
    cases h with
    | blockComment some begins behind =>
      obtain ⟨c, more, front⟩ := List.exists_cons_of_ne_nil some
      unfold atBlockComment at begins
      unfold step
      simp only [front] at begins behind ⊢
      rw [begins, behind]
      rfl
    | blank front atCode blank => rw [step_of_atCode front atCode, if_pos blank]
    | continuation front atCode => rw [step_of_atCode front atCode]; rfl
    | comment front atCode => rw [step_of_atCode front atCode]; rfl
    | newline front atCode h =>
      rw [step_of_atCode front atCode]
      exact map_some_eq_ok_iff.2 h
    | token front atCode solid single hash line h =>
      rw [step_of_atCode front atCode, solid, if_neg (by decide), if_neg single, if_neg hash, if_neg line]
      exact map_some_eq_ok_iff.2 h

theorem step_eq_none_iff :
    step code state = .ok none ↔ state.cursor.rest = [] ∨ atBlockComment state = false ∧ atData state = true := by
  cases front : state.cursor.rest with
  | nil => simp [step, front]
  | cons c more =>
    simp only [reduceCtorEq, false_or]
    constructor
    · intro h
      cases begins : atBlockComment state with
      | true =>
        unfold atBlockComment at begins
        unfold step at h
        simp only [front] at begins h
        rw [begins, if_pos rfl] at h
        split at h <;> cases h
      | false =>
        refine ⟨rfl, ?_⟩
        cases ends : atData state with
        | true => rfl
        | false =>
          rw [step_of_atCode front ⟨begins, ends⟩] at h
          repeat' split at h
          all_goals first
            | exact (map_some_ne_ok_none h).elim
            | cases h
    · rintro ⟨plain, ends⟩
      unfold atBlockComment at plain
      unfold atData at ends
      unfold step
      simp only [front] at plain ends ⊢
      rw [plain, ends]
      rfl

/-! Progress -/

theorem token_cases {c : Char} (h : token code state c = .ok found) :
    (∃ opener after, c = '<' ∧ heredoc? state = some (opener, after) ∧
      found = ⟨[⟨.string [], state.cursor.pos, state.spaced⟩], [],
        { state.taken (.string []) after with pending := state.pending ++ [(opener, state.cursor.pos)] }⟩) ∨
    (c = '<' → heredoc? state = none) ∧ ∃ lexeme after, plainToken code state c = .ok (lexeme, after) ∧
      found = ⟨[⟨lexeme, state.cursor.pos, state.spaced⟩], [], state.taken lexeme after⟩ := by
  unfold token at h
  dsimp only at h
  split at h
  · rename_i opener after opens
    split at opens
    · rename_i less
      exact .inl ⟨opener, after, less, opens, (Except.ok.inj h).symm⟩
    · contradiction
  · rename_i opens
    obtain ⟨⟨lexeme, after⟩, hplain, h⟩ := bind_eq_ok_iff.1 h
    refine .inr ⟨fun less => ?_, lexeme, after, hplain, (pure_eq_ok_iff.1 h).symm⟩
    rwa [if_pos less] at opens

theorem readOpener_of_heredoc? {after : List Char} {opener : Heredoc.Opener}
    (opens : heredoc? state = some (opener, after)) : Heredoc.readOpener state.cursor.rest = some (opener, after) := by
  unfold heredoc? at opens
  split at opens
  · exact opens
  · contradiction

theorem heredoc?_suffix {c : Char} {more after : List Char} {opener : Heredoc.Opener}
    (front : state.cursor.rest = c :: more) (opens : heredoc? state = some (opener, after)) : after <:+ more :=
  readOpener_suffix (front ▸ readOpener_of_heredoc? opens)

theorem token_suffix {c : Char} {more : List Char} (front : state.cursor.rest = c :: more)
    (h : token code state c = .ok found) : found.state.cursor.rest <:+ more := by
  have taken {after : List Char} (behind : after <:+ more) : (state.cursor.moveTo after).rest <:+ more := by
    rwa [rest_moveTo (front ▸ behind.trans (List.suffix_cons c more))]
  obtain ⟨opener, after, -, opens, rfl⟩ | ⟨-, lexeme, after, hplain, rfl⟩ := token_cases h
  · exact taken (heredoc?_suffix front opens)
  · exact taken (plainToken_suffix front hplain)

theorem readBodies_cons_iff {opener : Heredoc.Opener} {pos : Position} {more : List (Heredoc.Opener × Position)}
    {cursor behind : Cursor} {bodies : List Segments} :
    readBodies code cursor ((opener, pos) :: more) = .ok (bodies, behind) ↔
      ∃ lines rest body bodies', Heredoc.takeBody opener [] cursor.rest = some (lines, rest) ∧
        Literal.segments code opener.embeds none ⟨cursor.pos.line, 1⟩ (opener.bodyText lines) = .ok body ∧
        readBodies code (cursor.moveTo rest) more = .ok (bodies', behind) ∧ bodies = body :: bodies' := by
  rw [readBodies]
  cases taken : Heredoc.takeBody opener [] cursor.rest with
  | none => simp
  | some found =>
    obtain ⟨lines, rest⟩ := found
    simp only [bind_eq_ok_iff, pure_eq_ok_iff]
    constructor
    · rintro ⟨body, hbody, ⟨bodies', behind'⟩, hmore, eq⟩
      obtain ⟨rfl, rfl⟩ := Prod.mk.inj eq
      exact ⟨lines, rest, body, bodies', rfl, hbody, hmore, rfl⟩
    · rintro ⟨lines', rest', body, bodies', eq, hbody, hmore, rfl⟩
      obtain ⟨rfl, rfl⟩ := Prod.mk.inj (Option.some.inj eq)
      exact ⟨body, hbody, (bodies', behind), hmore, rfl⟩

theorem readBodies_suffix {cursor behind : Cursor} {pending : List (Heredoc.Opener × Position)}
    {bodies : List Segments} (h : readBodies code cursor pending = .ok (bodies, behind)) :
    behind.rest <:+ cursor.rest := by
  induction pending generalizing cursor bodies with
  | nil => exact (Prod.mk.inj (Except.ok.inj h)).2 ▸ List.suffix_refl _
  | cons opened more ih =>
    obtain ⟨lines, rest, body, bodies', htake, -, hmore, -⟩ := readBodies_cons_iff.1 h
    have taken := takeBody_suffix htake
    exact (rest_moveTo taken ▸ ih hmore).trans taken

/-- A newline with its bodies: what stands behind it, and whether a token stands for it. -/
theorem newline_cases (h : newline code state = .ok found) :
    ∃ bodies cursor, readBodies code state.cursor.next state.pending = .ok (bodies, cursor) ∧
      found = if continuesWithDot cursor.rest || !(state.last.any (!·.isSeparator)) then
        ⟨[], bodies, { state with cursor, spaced := true, pending := [] }⟩
      else ⟨[⟨.newline, state.cursor.pos, false⟩], bodies,
        { state with cursor, spaced := true, pending := [], last := some .newline }⟩ := by
  obtain ⟨⟨bodies, cursor⟩, hbodies, h⟩ := bind_eq_ok_iff.1 h
  refine ⟨bodies, cursor, hbodies, ?_⟩
  dsimp only at h
  split at h
  · rename_i silent
    rw [if_pos silent, pure_eq_ok_iff.1 h]
  · rename_i separates
    rw [if_neg separates, pure_eq_ok_iff.1 h]

theorem Step.suffix (h : Step code state found) : found.state.cursor.rest <:+ state.cursor.rest ∧
    found.state.cursor.rest.length < state.cursor.rest.length := by
  have proper {after : List Char} {c : Char} {more : List Char} (front : state.cursor.rest = c :: more)
      (behind : after <:+ more) : after <:+ state.cursor.rest ∧ after.length < state.cursor.rest.length := by
    rw [front]
    exact ⟨behind.trans (List.suffix_cons c more), Nat.lt_succ_of_le behind.length_le⟩
  cases h with
  | blockComment some begins behind =>
    have after := afterBlockComment_suffix behind
    simp only [rest_moveTo after]
    exact ⟨after, afterBlockComment_length behind some⟩
  | blank front => exact proper front (by simp [rest_next, front])
  | continuation front => exact proper front (by simp [rest_skip, front])
  | comment front =>
    refine proper front ?_
    have after := List.dropWhile_suffix (l := state.cursor.rest) (fun c : Char => decide (c ≠ '\n'))
    simp only [rest_moveTo after]
    rw [front, List.dropWhile_cons_of_pos (by decide)]
    exact List.dropWhile_suffix _
  | newline front atCode h =>
    obtain ⟨bodies, cursor, hbodies, rfl⟩ := newline_cases h
    have behind := readBodies_suffix hbodies
    rw [rest_next, front, List.tail_cons] at behind
    split
    · exact proper front behind
    · exact proper front behind
  | token front atCode solid single hash line h => exact proper front (token_suffix front h)

end Formulary.Scan
