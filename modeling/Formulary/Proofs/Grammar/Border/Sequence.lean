import Formulary.Proofs.Grammar.Border.Combined

/-! Parsers that carry over a border in sequence, in scopes and between delimiters. -/

namespace Formulary.Grammar

variable {α β : Type} {border : Border} {tied tied' : Bool} {token : Token} {start mid finish : Nest}
  {reach reach' : Reach} {p q : Parser α} {next : α → Parser β}

theorem test_of_closesStatement {lexeme : Lexeme Token} {test : Lexeme Token → α} {value : α}
    (h : closesStatement lexeme = true) (newline : test .newline = value) (semicolon : test .semicolon = value)
    (endOfText : test .endOfText = value) (closing : ∀ bracket, test (.closing bracket) = value)
    (words : ∀ word ∈ ["else", "elsif", "end", "ensure", "when"], test (.keyword word) = value) :
    test lexeme = value := by
  cases lexeme with
  | newline => exact newline
  | semicolon => exact semicolon
  | endOfText => exact endOfText
  | closing bracket => exact closing bracket
  | keyword word => exact words word (List.contains_iff_mem.1 h)
  | _ => cases h

theorem operator?_of_closesStatement {lexeme : Lexeme Token} (h : closesStatement lexeme = true) :
    lexeme.operator? = none :=
  test_of_closesStatement h rfl rfl rfl (fun _ => rfl) fun _ _ => rfl

theorem eq_of_isOpening {lexeme : Lexeme Token} {bracket : Bracket} (h : lexeme.isOpening bracket = true) :
    lexeme = .opening bracket := by
  cases lexeme with
  | opening found => rw [of_decide_eq_true h]
  | _ => cases h

theorem eq_of_isKeyword {lexeme : Lexeme Token} {word : String} (h : lexeme.isKeyword word = true) :
    lexeme = .keyword word := by
  cases lexeme with
  | keyword found => rw [of_decide_eq_true h]
  | _ => cases h

theorem eq_of_isOperator {lexeme : Lexeme Token} {spelling : String} (h : lexeme.isOperator spelling = true) :
    lexeme = .operator spelling := by
  have sign : lexeme.operator? = some spelling := of_decide_eq_true h
  cases lexeme with
  | operator found => rw [Option.some.inj sign]
  | _ => cases sign

theorem eq_of_isClosing {lexeme : Lexeme Token} {bracket : Bracket} (h : lexeme.isClosing bracket = true) :
    lexeme = .closing bracket := by
  cases lexeme with
  | closing found => rw [of_decide_eq_true h]
  | _ => cases h

/-! Scopes and delimiters -/

/-- A parser that runs another one in a state of its own, and then returns to the place of the first one. -/
structure Wraps (enter : State → State) (leave : State → State → State) (p q : Parser α) : Prop where
  run_iff {state after : State} {value : α} : p.run state = .ok (value, after) ↔
    ∃ inner, q.run (enter state) = .ok (value, inner) ∧ after = leave state inner
  ahead_enter (state : State) : (enter state).ahead = state.ahead
  final_enter (state : State) : (enter state).final = state.final
  scopes_enter {state twin : State} : twin.scopes = state.scopes → (enter twin).scopes = (enter state).scopes
  barred_enter {state twin : State} : twin.barred = state.barred → (enter twin).barred = (enter state).barred
  ahead_leave (state inner : State) : (leave state inner).ahead = inner.ahead
  final_leave (state inner : State) : (leave state inner).final = inner.final
  scopes_leave {state twin inner inner' : State} : inner'.scopes = inner.scopes →
    (leave twin inner').scopes = (leave state inner).scopes
  barred_leave {state inner : State} : inner.barred = (enter state).barred → (leave state inner).barred = state.barred

theorem Wraps.before {enter : State → State} {leave : State → State → State} (wraps : Wraps enter leave p q)
    {tokens : List Token} {state : State} (here : border.Before tokens state) : border.Before tokens (enter state) :=
  ⟨(wraps.ahead_enter state).trans here.ahead, (congrArg Token.lexeme (wraps.final_enter state)).trans here.ended⟩

/-- The wrapped parser may rely on both runs waiting alike, if they do wherever it begins. -/
theorem CarriesAt.wrapped {enter : State → State} {leave : State → State → State} (wraps : Wraps enter leave p q)
    (h : CarriesAt border tied' token start finish reach q)
    (ties : tied' = true → tied = true ∨ ∀ state twin : State, (enter twin).barred = (enter state).barred)
    (unties : tied' = false → tied = false) : CarriesAt border tied token start finish reach p where
  steady {state _ _} here run := by
    obtain ⟨inner, inside, rfl⟩ := wraps.run_iff.1 run
    have here' : (enter state).next = token := by
      rw [State.next, wraps.ahead_enter, wraps.final_enter]
      exact here
    obtain ⟨fewer, final, barred⟩ := h.steady here' inside
    refine ⟨?_, ?_, wraps.barred_leave barred⟩
    · rw [wraps.ahead_leave, ← wraps.ahead_enter state]
      exact fewer
    · rw [wraps.final_leave, final, wraps.final_enter]
  spans {state _ _ _ _} here run left some := by
    obtain ⟨inner, inside, rfl⟩ := wraps.run_iff.1 run
    exact h.spans ((wraps.ahead_enter state).trans here) inside ((wraps.ahead_leave state inner).symm.trans left) some
  alone {state _ _ _} strands here run left := by
    obtain ⟨inner, inside, rfl⟩ := wraps.run_iff.1 run
    exact h.alone strands (wraps.before here) inside ((wraps.ahead_leave state inner).symm.trans left)
  carries {state twin _ _ _ _} alike run left allowed := by
    obtain ⟨inner, inside, rfl⟩ := wraps.run_iff.1 run
    have alike' : Alike border tied' start (token :: _) (enter state) (enter twin) :=
      { left := wraps.before alike.left
        right := (wraps.ahead_enter twin).trans alike.right
        final := (wraps.final_enter twin).trans alike.final
        scopes := wraps.scopes_enter alike.scopes
        barred := fun same => (ties same).elim (fun same => wraps.barred_enter (alike.barred same)) fun all => all _ _
        shelters := fun differ => alike.shelters (unties differ)
        range := alike.range }
    obtain ⟨inner', run', right, scopes⟩ :=
      h.carries alike' inside ((wraps.ahead_leave state inner).symm.trans left) allowed
    exact ⟨leave twin inner', wraps.run_iff.2 ⟨inner', run', rfl⟩, (wraps.ahead_leave twin inner').trans right,
      wraps.scopes_leave scopes⟩

theorem Eager.wrapped {enter : State → State} {leave : State → State → State} (wraps : Wraps enter leave p q)
    (h : Eager border q) : Eager border p := by
  intro state after value here run left
  obtain ⟨inner, inside, rfl⟩ := wraps.run_iff.1 run
  exact h (wraps.before here) inside ((wraps.ahead_leave state inner).symm.trans left)

theorem wraps_enclosed (p : Parser α) :
    Wraps (·.bar 0) (fun state inner => inner.bar state.barred) (enclosed p) p where
  run_iff {state after value} := by
    rw [enclosed, run_bind_of_ok (run_get state), run_bind_of_ok (run_modify state _), run_bind_eq_ok_iff]
    constructor
    · rintro ⟨found, inner, run, rest⟩
      obtain ⟨rfl, rfl⟩ := Prod.mk.inj (Except.ok.inj rest)
      exact ⟨inner, run, rfl⟩
    · rintro ⟨inner, run, rfl⟩
      exact ⟨value, inner, run, rfl⟩
  ahead_enter _ := rfl
  final_enter _ := rfl
  scopes_enter same := same
  barred_enter _ := rfl
  ahead_leave _ _ := rfl
  final_leave _ _ := rfl
  scopes_leave same := same
  barred_leave _ := rfl

theorem wraps_leavingDo (p : Parser α) :
    Wraps (fun state => state.bar (state.barred + 1)) (fun _ inner => inner.bar (inner.barred - 1)) (leavingDo p) p
    where
  run_iff {state after value} := by
    rw [leavingDo, run_bind_of_ok (run_modify state _), run_bind_eq_ok_iff]
    constructor
    · rintro ⟨found, inner, run, rest⟩
      obtain ⟨rfl, rfl⟩ := Prod.mk.inj (Except.ok.inj rest)
      exact ⟨inner, run, rfl⟩
    · rintro ⟨inner, run, rfl⟩
      exact ⟨value, inner, run, rfl⟩
  ahead_enter _ := rfl
  final_enter _ := rfl
  scopes_enter same := same
  barred_enter same := congrArg (· + 1) same
  ahead_leave _ _ := rfl
  final_leave _ _ := rfl
  scopes_leave same := same
  barred_leave same := congrArg (· - 1) same

theorem wraps_inScope (hard : Bool) (p : Parser α) :
    Wraps (fun state => { state with scopes := ⟨hard, []⟩ :: state.scopes })
      (fun _ inner => { inner with scopes := inner.scopes.tail }) (inScope hard p) p where
  run_iff {state after value} := by
    rw [inScope, run_bind_of_ok (run_modify state _), run_bind_eq_ok_iff]
    constructor
    · rintro ⟨found, inner, run, rest⟩
      obtain ⟨rfl, rfl⟩ := Prod.mk.inj (Except.ok.inj rest)
      exact ⟨inner, run, rfl⟩
    · rintro ⟨inner, run, rfl⟩
      exact ⟨value, inner, run, rfl⟩
  ahead_enter _ := rfl
  final_enter _ := rfl
  scopes_enter same := congrArg (⟨hard, []⟩ :: ·) same
  barred_enter same := same
  ahead_leave _ _ := rfl
  final_leave _ _ := rfl
  scopes_leave same := congrArg List.tail same
  barred_leave same := same

/-- A parser that reads a token wherever there is one. -/
def Reading (p : Parser α) : Prop :=
  ∀ ⦃state after value⦄, state.ahead ≠ [] → p.run state = .ok (value, after) → after.ahead ≠ state.ahead

namespace CarriesAt

theorem enclosed (h : CarriesAt border true token start finish reach p) :
    CarriesAt border tied token start finish reach (enclosed p) :=
  h.wrapped (wraps_enclosed p) (fun _ => .inr fun _ _ => rfl) nofun

theorem leavingDo (h : CarriesAt border tied token start finish reach p) :
    CarriesAt border tied token start finish reach (leavingDo p) :=
  h.wrapped (wraps_leavingDo p) .inl id

theorem inScope (hard : Bool) (h : CarriesAt border tied token start finish reach p) :
    CarriesAt border tied token start finish reach (inScope hard p) :=
  h.wrapped (wraps_inScope hard p) .inl id

/-- Runs that wait alike may begin at any depth. -/
theorem inside (h : CarriesAt border true token start finish reach p) (depth : Nat) :
    CarriesAt border true token (start.inside depth) (finish.inside depth) reach p where
  steady := h.steady
  spans here run left some := by
    obtain ⟨used, split, spans⟩ := h.spans here run left some
    exact ⟨used, split, spans.inside depth⟩
  alone := h.alone
  carries alike run left allowed :=
    h.carries ⟨alike.left, alike.right, alike.final, alike.scopes, alike.barred, nofun, alike.range⟩ run left allowed

/-- Where a block may begin but no bar comes, something else is read as if no block had begun. -/
theorem begun {depth : Nat} (h : CarriesAt border tied token ⟨depth, .plain⟩ finish reach p)
    (other : token.lexeme.isOperator "|" = false) (reads : Reading p) :
    CarriesAt border tied token ⟨depth, .begun⟩ finish reach p where
  steady := h.steady
  spans {_ _ _ more rest} here run left some := by
    obtain ⟨used, split, spans⟩ := h.spans here run left some
    refine ⟨used, split, ?_⟩
    cases used with
    | nil =>
      have same := left.trans ((congrArg border.left split).symm.trans here.symm)
      exact absurd same (reads (by rw [here]; exact List.cons_ne_nil _ _) run)
    | cons token' used =>
      obtain ⟨rfl, -⟩ := List.cons_eq_cons.1 split
      intro extra
      have found := spans extra
      rw [Nest.across_cons] at found ⊢
      rw [← found]
      exact congrArg (Option.bind · _) (after_begun other)
  alone := h.alone
  carries {_ _ _ _ more _} alike run left allowed := by
    refine h.carries ⟨alike.left, alike.right, alike.final, alike.scopes, alike.barred, fun differ => ?_, alike.range⟩
      run left allowed
    have shelters := Nest.shelters_cons.1 (alike.shelters differ)
    rw [after_begun other] at shelters
    exact Nest.shelters_cons.2 shelters

end CarriesAt

/-! Sequences -/

namespace Carries

theorem to_inner (h : Carries border tied reach start finish p) : Carries border tied .inner start finish p :=
  ⟨fun token => (h.at_token token).mono nofun, trivial⟩

theorem to_whole (h : Carries border tied .firm start finish p) : Carries border tied .whole start finish p :=
  ⟨fun token => (h.at_token token).to_whole, Eager.rests h.fits⟩

theorem eager (h : Carries border tied .firm start finish p) : Eager border p :=
  h.fits

theorem pure (value : α) : Carries border tied .whole start start (Pure.pure value) where
  at_token _ := .pure value
  fits := by
    intro state twin after found _ here there final scopes run left
    obtain ⟨rfl, rfl⟩ := Prod.mk.inj (Except.ok.inj run)
    exact ⟨twin, rfl, there, scopes⟩

/-- A value after which some token is left. -/
theorem done (value : α) : Carries border tied .inner start start (Pure.pure value) :=
  (pure value).to_inner

theorem of_fails (h : ∀ state result, p.run state ≠ .ok result) : Carries border tied .firm start finish p where
  at_token _ := .of_fails fun state _ => h state
  fits _ _ _ _ run := absurd run (h _ _)

/-- Where nothing is read at the border, neither part of a sequence reads anything. -/
theorem split {state after : State} {found : β} (h : Carries border tied reach start mid p)
    (tail : ∀ value, Carries border tied reach' mid finish (next value)) (here : border.Before [] state)
    (run : (p >>= next).run state = .ok (found, after)) (left : after.ahead = border.left []) :
    ∃ value middle, p.run state = .ok (value, middle) ∧ border.Before [] middle ∧
      (next value).run middle = .ok (found, after) := by
  obtain ⟨value, middle, first, second⟩ := run_bind_eq_ok_iff.1 run
  obtain ⟨tokens, same, -, fewer⟩ := Border.between_of_behind here.ahead left (h.behind first) ((tail value).behind second)
  rw [List.suffix_nil.1 fewer] at same
  exact ⟨value, middle, first, here.behind (h.behind first) same, second⟩

theorem complain (complaint : Complaint) : Carries border tied .firm start finish (complain complaint : Parser α) :=
  .of_fails fun _ _ => nofun

theorem complainAt (complaint : Complaint) (found : Token) :
    Carries border tied .firm start finish (complainAt complaint found : Parser α) :=
  .of_fails fun _ _ => nofun

theorem complains (complaint : Complaint) :
    Carries border tied .firm start finish (Grammar.complain complaint >>= next) :=
  .of_fails fun _ _ => nofun

theorem bind_inner (h : Carries border tied reach start mid p)
    (tail : ∀ value, Carries border tied .inner mid finish (next value)) :
    Carries border tied .inner start finish (p >>= next) :=
  ⟨fun token => (h.at_token token).bind tail nofun, trivial⟩

theorem bind_firm (h : Carries border tied reach start mid p)
    (tail : ∀ value, Carries border tied .firm mid finish (next value)) :
    Carries border tied .firm start finish (p >>= next) where
  at_token token := (h.at_token token).bind tail nofun
  fits := by
    intro state after found here run left
    obtain ⟨value, middle, -, same, second⟩ := h.split tail here run left
    exact (tail value).eager same second left

theorem bind_whole (h : Carries border tied .whole start mid p)
    (tail : ∀ value, Carries border tied .whole mid finish (next value)) :
    Carries border tied .whole start finish (p >>= next) where
  at_token token := (h.at_token token).bind tail fun _ => rfl
  fits := by
    intro state twin after found ends here there final scopes run left
    obtain ⟨value, middle, first, same, second⟩ := h.split tail here run left
    obtain ⟨middle', first', right, scopes'⟩ := h.fits ends here there final scopes first same.ahead
    have final' := (h.behind first').final.trans final
    obtain ⟨after', second', rest⟩ := (tail value).fits ends same right final' scopes' second left
    exact ⟨after', run_bind_eq_ok_iff.2 ⟨value, middle', first', second'⟩, rest⟩

theorem firm_bind (h : Carries border tied .firm start mid p)
    (tail : ∀ value, Carries border tied .whole mid finish (next value)) :
    Carries border tied .firm start finish (p >>= next) where
  at_token token := ((h.at_token token).bind tail fun _ => rfl).to_firm
  fits := by
    intro state after found here run left
    obtain ⟨value, middle, first, same, -⟩ := h.split tail here run left
    exact h.eager here first same.ahead

theorem still [still : Still p] (h : ∀ value, Carries border tied reach start finish (next value)) :
    Carries border tied reach start finish (p >>= next) where
  at_token token := .still fun value => (h value).at_token token
  fits := by
    cases reach with
    | inner => trivial
    | firm =>
      intro state after found here run left
      obtain ⟨value, middle, first, second⟩ := run_bind_eq_ok_iff.1 run
      obtain ⟨scopes, rfl, -⟩ := still.stays first (rfl : state.scopes = state.scopes)
      have here' : border.Before [] { state with scopes } := ⟨here.ahead, here.ended⟩
      exact (h value).eager here' second left
    | whole =>
      intro state twin after found ends here there final scopes run left
      obtain ⟨value, middle, first, second⟩ := run_bind_eq_ok_iff.1 run
      obtain ⟨scopes', rfl, first'⟩ := still.stays first scopes
      have here' : border.Before [] { state with scopes := scopes' } := ⟨here.ahead, here.ended⟩
      have there' : State.ahead { twin with scopes := scopes' } = border.right [] := there
      obtain ⟨after', second', rest⟩ := (h value).fits ends here' there' final rfl second left
      exact ⟨after', run_bind_eq_ok_iff.2 ⟨value, _, first', second'⟩, rest⟩

theorem ite {test : Prop} {_ : Decidable test} (h : test → Carries border tied reach start finish p)
    (h' : ¬test → Carries border tied reach start finish q) :
    Carries border tied reach start finish (if test then p else q) := by
  split
  · exact h ‹_›
  · exact h' ‹_›

theorem map_inner {f : α → β} (h : Carries border tied reach start finish p) :
    Carries border tied .inner start finish (f <$> p) := by
  rw [map_eq_pure_bind]
  exact h.bind_inner fun _ => done _

theorem map_firm {f : α → β} (h : Carries border tied .firm start finish p) :
    Carries border tied .firm start finish (f <$> p) := by
  rw [map_eq_pure_bind]
  exact h.firm_bind fun _ => pure _

theorem inside (h : Carries border true reach start finish p) (depth : Nat) :
    Carries border true reach (start.inside depth) (finish.inside depth) p :=
  ⟨fun token => (h.at_token token).inside depth, h.fits⟩

/-- Within brackets, where both runs wait alike. -/
theorem enclosed (h : Carries border true reach start finish p) (reaches : reach ≠ .whole) :
    Carries border tied reach start finish (enclosed p) where
  at_token token := (h.at_token token).enclosed
  fits := by
    cases reach with
    | inner => trivial
    | whole => contradiction
    | firm => exact h.eager.wrapped (wraps_enclosed p)

theorem leavingDo (h : Carries border tied reach start finish p) (reaches : reach ≠ .whole) :
    Carries border tied reach start finish (leavingDo p) where
  at_token token := (h.at_token token).leavingDo
  fits := by
    cases reach with
    | inner => trivial
    | whole => contradiction
    | firm => exact h.eager.wrapped (wraps_leavingDo p)

theorem inScope (hard : Bool) (h : Carries border tied reach start finish p) (reaches : reach ≠ .whole) :
    Carries border tied reach start finish (inScope hard p) where
  at_token token := (h.at_token token).inScope hard
  fits := by
    cases reach with
    | inner => trivial
    | whole => contradiction
    | firm => exact h.eager.wrapped (wraps_inScope hard p)

/-! Looking at tokens -/

theorem look {next : Token → Parser α} (h : ∀ token, CarriesAt border tied token start finish .inner (next token)) :
    Carries border tied .inner start finish (peek >>= next) :=
  ⟨fun token => (h token).peek, trivial⟩

theorem test {test : Lexeme Token → Bool} {next : Bool → Parser α}
    (yes : ∀ token, test token.lexeme = true → CarriesAt border tied token start finish .inner (next true))
    (no : Carries border tied .inner start finish (next false)) :
    Carries border tied .inner start finish (check test >>= next) where
  at_token token := by
    refine .check ?_
    cases found : test token.lexeme with
    | false => exact no.at_token token
    | true => exact yes token found
  fits := trivial

theorem checked {test : Lexeme Token → Bool} {next : Bool → Parser α}
    (h : ∀ found, Carries border tied .inner start finish (next found)) :
    Carries border tied .inner start finish (Grammar.check test >>= next) :=
  .test (fun token _ => (h true).at_token token) (h false)

theorem checked_firm {test : Lexeme Token → Bool} {next : Bool → Parser α}
    (h : ∀ found, Carries border tied .firm start finish (next found)) :
    Carries border tied .firm start finish (Grammar.check test >>= next) where
  at_token token := .check ((h _).at_token token)
  fits := by
    intro state after value here run
    rw [run_bind_of_ok (run_check state test)] at run
    exact (h _).eager here run

/-- A test that fails behind the border of the first run. -/
theorem test_firm {test : Lexeme Token → Bool} {next : Bool → Parser α} (close : test (.closing .round) = false)
    (ended : test .endOfText = false)
    (yes : ∀ token, test token.lexeme = true → CarriesAt border tied token start finish .firm (next true))
    (no : Carries border tied .firm start finish (next false)) :
    Carries border tied .firm start finish (check test >>= next) where
  at_token token := by
    refine .check ?_
    cases found : test token.lexeme with
    | false => exact no.at_token token
    | true => exact yes token found
  fits := by
    intro state after value here run
    have fails : test state.next.lexeme = false := (Border.rim_of_left_nil here).test close ended
    rw [run_bind_of_ok (run_check state test), fails] at run
    exact no.eager here run

/-- Parsers that run alike where a statement may end. -/
theorem fits_of_idle {p q : Parser α} (h : reach.Fits border q)
    (same : ∀ state, closesStatement state.next.lexeme = true → p.run state = q.run state) : reach.Fits border p := by
  have left {state : State} (here : border.Before [] state) : p.run state = q.run state :=
    same state (Border.rim_of_left_nil here).closesStatement
  cases reach with
  | inner => trivial
  | firm => exact fun state after value here run => h here (left here ▸ run)
  | whole =>
    intro state twin after value ends here there final scopes run rest
    obtain ⟨after', run', found⟩ := h ends here there final scopes (left here ▸ run) rest
    refine ⟨after', (same twin ?_).trans run', found⟩
    rw [Border.next_of_right_nil there final]
    exact ends

/-- A test that fails where a statement may end. -/
theorem check {test : Lexeme Token → Bool} {next : Bool → Parser α}
    (idle : ∀ {lexeme}, closesStatement lexeme = true → test lexeme = false)
    (yes : ∀ token, test token.lexeme = true → CarriesAt border tied token start finish reach (next true))
    (no : Carries border tied reach start finish (next false)) :
    Carries border tied reach start finish (check test >>= next) where
  at_token token := by
    refine .check ?_
    cases found : test token.lexeme with
    | false => exact no.at_token token
    | true => exact yes token found
  fits := by
    refine fits_of_idle no.fits fun state here => ?_
    rw [run_bind_of_ok (run_check state test), idle here]

theorem atCallParen {next : Bool → Parser α}
    (yes : ∀ token, token.lexeme = .opening .round → CarriesAt border tied token start finish reach (next true))
    (no : Carries border tied reach start finish (next false)) :
    Carries border tied reach start finish (atCallParen >>= next) where
  at_token token := by
    refine .atCallParen ?_
    cases found : token.lexeme.isOpening .round with
    | false => exact no.at_token token
    | true =>
      cases token.spaced with
      | true => exact no.at_token token
      | false => exact yes token (eq_of_isOpening found)
  fits := by
    refine fits_of_idle no.fits fun state here => ?_
    have other : state.next.lexeme.isOpening .round = false :=
      test_of_closesStatement here rfl rfl rfl (fun _ => rfl) fun _ _ => rfl
    rw [run_bind_of_ok (run_atCallParen state), other, Bool.false_and]

theorem atArgument {next : Bool → Parser α} (yes : ∀ token, CarriesAt border tied token start finish reach (next true))
    (no : Carries border tied reach start finish (next false)) :
    Carries border tied reach start finish (atArgument >>= next) where
  at_token token := by
    refine .atArgument fun begins => ?_
    cases begins with
    | false => exact no.at_token token
    | true => exact yes token
  fits := by
    refine fits_of_idle no.fits fun state here => ?_
    have begins : beginsArgument state.next.lexeme = false :=
      test_of_closesStatement here rfl rfl rfl (fun _ => rfl) (by decide)
    have binds : bindsArgument state.next.lexeme = false :=
      test_of_closesStatement here rfl rfl rfl (fun _ => rfl) fun _ _ => rfl
    rw [run_bind_of_ok (run_atArgument state), begins, binds, Bool.false_and, Bool.false_and, Bool.or_false,
      Bool.and_false]

/-! Tokens that are skipped or demanded -/

theorem skipWhile {test : Lexeme Token → Bool}
    (h : ∀ lexeme, test lexeme = true → Steps start lexeme start ∧ bindsArgument lexeme = false)
    (stops : test (.closing .round) = false) : Carries border tied .inner start start (skipWhile test) :=
  ⟨fun _ => .skipWhile h stops, trivial⟩

theorem skipNewlines {depth : Nat} : Carries border tied .inner ⟨depth, .plain⟩ ⟨depth, .plain⟩ skipNewlines := by
  refine skipWhile (fun lexeme newline => ?_) rfl
  cases lexeme with
  | newline => exact ⟨fun _ => rfl, rfl⟩
  | _ => cases newline

theorem skipSeparators {depth : Nat} : Carries border tied .inner ⟨depth, .plain⟩ ⟨depth, .plain⟩ skipSeparators := by
  refine skipWhile (fun lexeme separator => ?_) rfl
  cases lexeme with
  | newline | semicolon => exact ⟨fun _ => rfl, rfl⟩
  | _ => cases separator

/-- A token that is read if it is there, even if it is the one behind the border. -/
theorem accept {test : Lexeme Token → Bool} {next : Unit → Parser α}
    (h : ∀ lexeme, test lexeme = true → Steps start lexeme mid ∧ Reach.whole.strands lexeme = false)
    (ended : test .endOfText = false)
    (tail : Carries border tied .whole mid finish (next ())) (no : Carries border tied .firm start finish p) :
    Carries border tied .firm start finish
      (Grammar.check test >>= fun found => if found then discard advance >>= next else p) where
  at_token token := by
    refine .check (.ite (fun found => ?_) fun _ => no.at_token token)
    obtain ⟨steps, sign⟩ := h _ found
    exact CarriesAt.to_firm (.skip steps tail fun binds => absurd (sign.symm.trans binds) Bool.false_ne_true)
  fits := by
    intro state after value here run left
    rw [run_bind_of_ok (run_check state test)] at run
    cases found : test state.next.lexeme with
    | false =>
      rw [found] at run
      exact no.eager here run left
    | true =>
      rw [found] at run
      have inner : state.next.lexeme ≠ .endOfText := fun same => by
        rw [same, ended] at found
        contradiction
      obtain ⟨tokens, ahead⟩ := state.front here.ended inner
      have shorter := (tail.behind run).fewer.length_le
      have fewer : state.ahead.tail.length < state.ahead.length := by
        rw [ahead]
        exact Nat.lt_succ_self _
      rw [left, ← here.ahead] at shorter
      exact absurd fewer (Nat.not_lt.2 shorter)

theorem consume {test : Lexeme Token → Bool}
    (h : ∀ lexeme, test lexeme = true → Steps start lexeme finish ∧ Reach.whole.strands lexeme = false)
    (ended : test .endOfText = false) (complaint : Complaint) :
    Carries border tied .firm start finish (consume test complaint) := by
  have done : Carries border tied .whole finish finish (Pure.pure ()) := pure ()
  have found := accept h ended done (complain complaint)
  rwa [bind_pure] at found

end Carries

end Formulary.Grammar
