import Formulary.Proofs.Grammar.Border.Operands
import Formulary.Proofs.Grammar.Parses

/-!
Statements that are read up to the end of a text, and others behind them. If a statement may end where the others begin,
the statements of both are those of the one, and then those of the other.
-/

namespace Formulary.Grammar

variable {state mid after last : State} {tokens more : List Token} {final : Token} {node : Node}
  {found all : List Node}

namespace State

/-- The state behind the separators that come next. -/
def begun (state : State) : State :=
  state.on (state.ahead.dropWhile (·.lexeme.isSeparator))

/-- The state with more tokens behind those ahead, and another end. -/
def followed (more : List Token) (final : Token) (state : State) : State :=
  { state with ahead := state.ahead ++ more, final }

/-- A text is left, with its end behind it. -/
structure Finite (state : State) : Prop where
  inner : ∀ token ∈ state.ahead, token.lexeme ≠ .endOfText
  ended : state.final.lexeme = .endOfText

end State

/-! A list of statements -/

/-- Statements up to the end of a text, each of them with the end or a separator behind it. -/
inductive Sequence : State → List Node → State → Prop
  | done {state : State} : state.begun.next.lexeme = .endOfText → Sequence state [] state.begun
  | cons {state mid after : State} {first : Node} {others : List Node} :
      state.begun.next.lexeme ≠ .endOfText → Parses .statement state.begun first mid →
      (mid.next.lexeme = .endOfText ∨ mid.next.lexeme.isSeparator = true) → Sequence mid others after →
      Sequence state (first :: others) after

theorem run_statements {parse : Rules} :
    (statements parse {}).run state = (if Stop.meets {} state.begun.next.lexeme then return [] else do
      let first ← parse .statement
      if !(← atStop {}) && !(← check Lexeme.isSeparator) then complain .unexpectedAfterStatement
      let more ← parse (.statements {})
      return first :: more : Parser (List Node)).run state.begun := rfl

theorem run_whereEnded {p : Parser (List Node)} : (do
    if !(← atStop {}) && !(← check Lexeme.isSeparator) then complain .unexpectedAfterStatement
    p : Parser (List Node)).run state = .ok (found, after) ↔
      (state.next.lexeme = .endOfText ∨ state.next.lexeme.isSeparator = true) ∧
        p.run state = .ok (found, after) := by
  rw [← meets_end_iff, run_bind_of_ok (run_atStop state _), run_bind_of_ok (run_check state _)]
  cases Stop.meets {} state.next.lexeme with
  | true => simp
  | false =>
    cases state.next.lexeme.isSeparator with
    | true => simp
    | false =>
      refine ⟨nofun, fun ⟨ends, _⟩ => ?_⟩
      simp at ends

theorem sequence_of_statements {fuel : Nat} (run : (rule fuel (.statements {})).run state = .ok (found, after)) :
    Sequence state found after := by
  induction fuel generalizing state found with
  | zero => cases run
  | succ fuel ih =>
    change (statements (rule fuel) {}).run state = _ at run
    rw [run_statements] at run
    by_cases ends : state.begun.next.lexeme = .endOfText
    · rw [meets_end_iff.2 ends, if_pos rfl] at run
      obtain ⟨rfl, rfl⟩ := Prod.mk.inj (Except.ok.inj run)
      exact .done ends
    · rw [Bool.eq_false_iff.2 (mt meets_end_iff.1 ends), if_neg Bool.false_ne_true] at run
      obtain ⟨first, mid, read, run⟩ := run_bind_eq_ok_iff.1 run
      obtain ⟨closes, run⟩ := run_whereEnded.1 run
      obtain ⟨others, last, rest, made⟩ := run_bind_eq_ok_iff.1 run
      obtain ⟨rfl, rfl⟩ := Prod.mk.inj (Except.ok.inj made)
      exact .cons ends ⟨fuel, read⟩ closes (ih rest)

theorem Sequence.parses (h : Sequence state found after) : Parses (.statements {}) state found after := by
  induction h with
  | @done state ends =>
    refine ⟨1, (run_statements : (statements (rule 0) {}).run state = _).trans ?_⟩
    rw [meets_end_iff.2 ends]
    rfl
  | @cons state mid after first others inner read closes _ ih =>
    apply Parses.of_step
    filter_upwards [read.eventually, ih.eventually] with fuel read rest
    refine (run_statements : (statements (rule fuel) {}).run state = _).trans ?_
    rw [Bool.eq_false_iff.2 (mt meets_end_iff.1 inner), if_neg Bool.false_ne_true, run_bind_of_ok read]
    refine run_whereEnded.2 ⟨closes, ?_⟩
    rw [run_bind_of_ok rest]
    rfl

theorem parses_statements_iff : Parses (.statements {}) state found after ↔ Sequence state found after :=
  ⟨fun ⟨_, run⟩ => sequence_of_statements run, Sequence.parses⟩

theorem Sequence.ends (h : Sequence state found after) : after.next.lexeme = .endOfText := by
  induction h with
  | done ends => exact ends
  | cons _ _ _ _ ih => exact ih

theorem Sequence.behind (h : Sequence state found after) : Behind state after := by
  obtain ⟨fuel, run⟩ := parses_statements_iff.2 h
  have carries : Carries ⟨[], [], state.final, nofun⟩ true (Rule.statements {}).extent (Rule.statements {}).nest .outside
      (rule fuel (.statements {})) := (carryingRules_rule fuel).carries (.statements {}) true rfl
  exact carries.behind run

/-- The state at an end, outside of all definitions. -/
def atEnd (last : Token) : State :=
  ⟨[], last, [⟨true, []⟩], 0⟩

theorem start_concat (tokens : List Token) (last : Token) : start (tokens ++ [last]) = (atEnd last).on tokens := by
  rw [start, List.dropLast_concat, List.getLast?_concat]
  rfl

/-- A text of one statement. -/
theorem ofTokens_statement {last : Token} {node : Node} (capped : Capped (tokens ++ [last]))
    (separator : ((atEnd last).on tokens).next.lexeme.isSeparator = false)
    (inner : ((atEnd last).on tokens).next.lexeme ≠ .endOfText)
    (read : Parses .statement ((atEnd last).on tokens) node (atEnd last)) :
    ofTokens (tokens ++ [last]) = .ok (.program .origin [node]) := by
  have final : (atEnd last).begun.next.lexeme = .endOfText := capped.final
  have kept : ((atEnd last).on tokens).begun = (atEnd last).on tokens := by
    cases tokens with
    | nil => rfl
    | cons token tokens => exact congrArg (atEnd last).on (List.dropWhile_cons_of_neg (by simpa using separator))
  have starts : ((atEnd last).on tokens).begun.next.lexeme ≠ .endOfText := by rwa [kept]
  have begun : Parses .statement ((atEnd last).on tokens).begun node (atEnd last) := by rwa [kept]
  have sequence : Sequence ((atEnd last).on tokens) [node] (atEnd last).begun :=
    .cons starts begun (.inl final) (.done final)
  refine (ofTokens_eq_ok_iff capped).2 ⟨[node], _, ?_, sequence.ends, rfl⟩
  rw [start_concat]
  exact sequence.parses

/-! More behind the end -/

/-- A statement may end between the tokens: a newline begins the second ones, or a separator ends the first ones, if
there are any. -/
def Parted (tokens more : List Token) : Prop :=
  (∀ token ∈ tokens.getLast?, token.lexeme.isSeparator = true) ∨ ∃ token ∈ more.head?, token.lexeme = .newline

theorem Parted.suffix {rest : List Token} (h : Parted tokens more) (fewer : rest <:+ tokens) : Parted rest more := by
  refine h.imp_left fun separated token mem => separated token ?_
  rwa [getLast?_of_suffix fewer (List.ne_nil_of_mem (List.mem_of_getLast? mem))]

theorem State.Finite.behind (h : state.Finite) (behind : Behind state after) : after.Finite :=
  ⟨fun token mem => h.inner token (behind.fewer.subset mem), behind.final ▸ h.ended⟩

theorem behind_begun (state : State) : Behind state state.begun :=
  ⟨List.dropWhile_suffix _, rfl, rfl⟩

/-- Where a text is over, nothing is left of it. -/
theorem State.Finite.ahead_eq_nil (h : state.Finite) (ends : state.next.lexeme = .endOfText) : state.ahead = [] := by
  cases ahead : state.ahead with
  | nil => rfl
  | cons token tokens =>
    rw [State.next, ahead] at ends
    exact absurd ends (h.inner token (ahead ▸ List.mem_cons_self))

theorem State.next_followed_of_nil (none : state.ahead = []) : (state.followed more final).next = more.headD final := by
  rw [State.next, State.followed, none, List.nil_append]

theorem State.next_followed_of_cons {token : Token} (ahead : state.ahead = token :: tokens) :
    (state.followed more final).next = state.next := by
  rw [State.next, State.next, State.followed, ahead, List.cons_append, List.headD_cons, List.headD_cons]

section Line

/-! Where nothing is left of a text, a line begins behind it. -/

variable (line : state.ahead = [] → ∃ token ∈ more.head?, token.lexeme = .newline)
include line

theorem isSeparator_next_followed (final : Token) (finite : state.Finite)
    (closes : state.next.lexeme = .endOfText ∨ state.next.lexeme.isSeparator = true) :
    (state.followed more final).next.lexeme.isSeparator = true := by
  cases ahead : state.ahead with
  | nil =>
    obtain ⟨newline, head, same⟩ := line ahead
    rw [State.next_followed_of_nil ahead, List.headD_eq_head?_getD, head, Option.getD_some, same]
    rfl
  | cons token tokens =>
    rw [State.next_followed_of_cons ahead]
    refine closes.resolve_left fun ends => ?_
    rw [finite.ahead_eq_nil ends] at ahead
    cases ahead

theorem allowed_followed (next : (state.followed more final).next.lexeme.isSeparator = true) :
    Allowed ⟨[], more, final, nofun⟩ true state.ahead := by
  refine ⟨fun _ => rfl, fun none => ?_, ?_⟩
  · obtain ⟨newline, head, same⟩ := line none
    rw [Border.endsStatement, List.headD_eq_head?_getD, head, Option.getD_some, same]
    rfl
  · rintro ⟨sign, rest, binds⟩
    rw [State.next, State.followed, rest] at next
    cases found : sign.lexeme with
    | newline | semicolon => rw [found] at binds; cases binds
    | _ => rw [List.singleton_append, List.headD_cons, found] at next; cases next

end Line

theorem alike_followed {token : Token} (final : Token) (finite : state.Finite) (parted : Parted state.ahead more)
    (ahead : state.ahead = token :: tokens) :
    Alike ⟨[], more, final, nofun⟩ true .outside (token :: tokens) state (state.followed more final) where
  left := ⟨ahead.trans (List.append_nil _).symm, finite.ended⟩
  right := by rw [State.followed, ahead]; rfl
  final := rfl
  scopes := rfl
  barred := fun _ => rfl
  shelters := Bool.noConfusion
  range := by
    obtain separated | ⟨newline, head, same⟩ := parted
    · refine .inr fun last mem => ?_
      have separator := separated last (ahead ▸ mem)
      cases found : last.lexeme with
      | operator spelling => rw [found] at separator; cases separator
      | _ => rfl
    · refine .inl ?_
      rw [Border.endsRange, List.headD_eq_head?_getD, head, Option.getD_some, same]
      rfl

/-- A statement is read alike with more tokens behind the text, where one may end in front of them. -/
theorem statement_followed (finite : state.Finite) (parted : Parted state.ahead more) (some : state.ahead ≠ [])
    (read : Parses .statement state node mid)
    (closes : mid.next.lexeme = .endOfText ∨ mid.next.lexeme.isSeparator = true) :
    Parses .statement (state.followed more final) node (mid.followed more final) ∧ Behind state mid ∧
      (mid.followed more final).next.lexeme.isSeparator = true := by
  obtain ⟨fuel, run⟩ := read
  let border : Border := ⟨[], more, final, nofun⟩
  have left (tokens : List Token) : border.left tokens = tokens := List.append_nil tokens
  have carries : Carries border true .firm .outside .outside (rule fuel .statement) :=
    (carryingRules_rule fuel).carries .statement true rfl
  obtain ⟨token, tokens, ahead⟩ := List.exists_cons_of_ne_nil some
  have alike := alike_followed final finite parted ahead
  have behind := carries.behind run
  -- A statement never ends right behind a separator, so that some tokens are left if one ends the text.
  have line (none : mid.ahead = []) : ∃ token ∈ more.head?, token.lexeme = .newline := by
    refine parted.resolve_left fun separated => ?_
    refine (carries.at_token token).alone (fun last mem => ?_) alike.left run (none.trans (left []).symm)
    rw [Reach.strands, separated last (ahead ▸ mem), Reach.full, Bool.and_true, Bool.or_true]
  have next := isSeparator_next_followed line final (finite.behind behind) closes
  obtain ⟨after', run', right, scopes⟩ :=
    (carries.at_token token).carries alike run (left _).symm (allowed_followed line next)
  have behind' := carries.behind run'
  have same : after' = mid.followed more final := by
    change State.mk after'.ahead after'.final after'.scopes after'.barred = ⟨_, _, _, _⟩
    rw [right, scopes, behind'.final, behind'.barred, behind.barred]
    rfl
  exact ⟨⟨fuel, same ▸ run'⟩, behind, next⟩

/-- What a list of statements does hangs on what is left behind the separators that come first. -/
theorem Sequence.congr (same : state.begun = mid.begun) : Sequence state found after ↔ Sequence mid found after := by
  have one {state mid : State} (same : state.begun = mid.begun) (h : Sequence state found after) :
      Sequence mid found after := by
    cases h with
    | done ends =>
      rw [same] at ends ⊢
      exact .done ends
    | cons inner read closes rest => exact .cons (same ▸ inner) (same ▸ read) closes rest
  exact ⟨one same, one same.symm⟩

/-- The statements of a text with more behind it are its own statements and those that follow. -/
theorem Sequence.followed_iff (h : Sequence state found after) (finite : state.Finite)
    (parted : Parted state.ahead more) :
    Sequence (state.followed more final) all last ↔
      ∃ others, Sequence (after.followed more final) others last ∧ all = found ++ others := by
  induction h generalizing all with
  | @done state ends =>
    have none := (finite.behind (behind_begun state)).ahead_eq_nil ends
    have same : (state.followed more final).begun = (state.begun.followed more final).begun := by
      have passed : state.ahead.dropWhile (·.lexeme.isSeparator) = [] := none
      rw [State.begun, State.begun, State.followed, State.followed, none, State.on, State.on, List.dropWhile_append,
        passed]
      rfl
    rw [Sequence.congr same]
    simp
  | @cons state mid after first others inner read closes _ ih =>
    have finite' := finite.behind (behind_begun state)
    obtain ⟨tokens, ahead⟩ := state.begun.front finite'.ended inner
    have some : state.begun.ahead ≠ [] := ahead ▸ List.cons_ne_nil _ _
    have begun : (state.followed more final).begun = state.begun.followed more final := by
      have some : (state.ahead.dropWhile (·.lexeme.isSeparator)).isEmpty ≠ true := by
        rwa [Ne, List.isEmpty_iff]
      rw [State.begun, State.followed, State.on, List.dropWhile_append, if_neg some]
      rfl
    have next : (state.begun.followed more final).next = state.begun.next := by
      rw [State.next, State.followed, ahead]
      rfl
    have parted' := parted.suffix (behind_begun state).fewer
    obtain ⟨read', behind, closes'⟩ := @statement_followed _ _ _ final _ finite' parted' some read closes
    have others_iff (others) := @ih others (finite'.behind behind) (parted'.suffix behind.fewer)
    constructor
    · intro h
      cases h with
      | done ends =>
        rw [begun, next] at ends
        exact absurd ends inner
      | cons inner' read'' closes'' rest =>
        rw [begun] at read''
        obtain ⟨rfl, rfl⟩ := read'.unique read''
        obtain ⟨behind, follows, same⟩ := (others_iff _).1 rest
        exact ⟨behind, follows, congrArg (first :: ·) same⟩
    · rintro ⟨behind, follows, rfl⟩
      have inner' : (state.followed more final).begun.next.lexeme ≠ .endOfText := by rwa [begun, next]
      exact .cons inner' (begun ▸ read') (.inr closes') ((others_iff _).2 ⟨behind, follows, rfl⟩)

end Formulary.Grammar
