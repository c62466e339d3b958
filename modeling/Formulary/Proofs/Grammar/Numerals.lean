import Formulary.Proofs.Grammar.Lifting

/-!
Texts that are written as numbers and are none. A recipe whose text can be split into tokens, but into no tree, either
breaks the grammar or has such a number somewhere, be it in the code of a string.
-/

namespace Formulary

/-- A token is among others, or among those of the code in them. -/
inductive Token.Within (token : Token) : List Token → Prop
  | here {tokens : List Token} : token ∈ tokens → token.Within tokens
  | inner {tokens code : List Token} {outer : Token} {pos : Position} : outer ∈ tokens →
      .code code pos ∈ outer.lexeme.segments → token.Within code → token.Within tokens

theorem Token.Within.code {outer token : Token} {tokens code : List Token} {pos : Position} (h : outer.Within tokens)
    (among : .code code pos ∈ outer.lexeme.segments) (mem : token ∈ code) : token.Within tokens := by
  induction h with
  | here there => exact .inner there among (.here mem)
  | inner there between _ ih => exact .inner there between ih

/-- Tokens one of which, or of the code in which, is written as a number that is none. -/
def Misspelt (tokens : List Token) (fault : Text.NumberFault) : Prop :=
  ∃ token : Token, token.Within tokens ∧ Grammar.numberFault? token.lexeme = some fault

namespace Grammar

variable {α β : Type} (tokens : List Token)

/-- A token of a recipe, or the end of code in it. -/
def Known (token : Token) : Prop :=
  token.Within tokens ∨ token.lexeme = .endOfText

/-- All that can be looked at are tokens of a recipe. -/
structure State.From (state : State) : Prop where
  ahead : ∀ token ∈ state.ahead, Known tokens token
  final : Known tokens state.final

/-- A parser that stays with the tokens of a recipe, and complains of a number only if that is one of them. -/
structure Guarded (p : Parser α) : Prop where
  keeps {state after : State} {value : α} : state.From tokens → p.run state = .ok (value, after) → after.From tokens
  complains {state : State} {fault : Text.NumberFault} : state.From tokens → p.run state = .error (.number fault) →
    Misspelt tokens fault

variable {tokens}

theorem known_inner {token other : Token} {code : List Token} {pos : Position} (known : Known tokens token)
    (among : .code code pos ∈ token.lexeme.segments) (mem : other ∈ code) : Known tokens other := by
  obtain within | final := known
  · exact .inl (within.code among mem)
  · rw [final] at among
    cases among

theorem State.From.known_next {state : State} (h : state.From tokens) : Known tokens state.next := by
  obtain ⟨ahead, final, scopes, barred⟩ := state
  cases ahead with
  | nil => exact h.final
  | cons token rest => exact h.ahead token (.head _)

/-- Code has an end of its own, if it has any tokens. -/
theorem from_code {code : List Token} (known : ∀ token ∈ code, Known tokens token) (pos : Position)
    (scopes : List Scope) (barred : Nat) :
    State.From tokens ⟨code.dropLast, code.getLast?.getD ⟨.endOfText, pos, true⟩, scopes, barred⟩ where
  ahead token mem := known token (List.dropLast_subset code mem)
  final := by
    cases last : code.getLast? with
    | none => exact .inr rfl
    | some token => exact known token (List.mem_of_getLast? last)

namespace Guarded

variable {p : Parser α}

theorem of_quiet (p : Parser α) [quiet : Quiet p] : Guarded tokens p where
  keeps h run := by
    obtain ⟨fewer, same⟩ := quiet.keeps run
    exact ⟨fun token mem => h.ahead token (fewer.subset mem), same ▸ h.final⟩
  complains _ run := nomatch quiet.complains run

theorem bind {next : α → Parser β} (h : Guarded tokens p) (hnext : ∀ value, Guarded tokens (next value)) :
    Guarded tokens (p >>= next) where
  keeps start run := by
    obtain ⟨value, mid, here, there⟩ := run_bind_eq_ok_iff.1 run
    exact (hnext value).keeps (h.keeps start here) there
  complains {state fault} start run := by
    rw [StateT.run_bind] at run
    cases here : p.run state with
    | error error =>
      rw [here] at run
      obtain rfl := Except.error.inj run
      exact h.complains start here
    | ok found =>
      rw [here] at run
      exact (hnext found.1).complains (h.keeps start here) run

theorem around {enter : State → State} {leave : State → State → State} (brackets : Brackets enter leave)
    (h : Guarded tokens p) : Guarded tokens (around enter leave p) :=
  have := brackets.quiet_enter
  have := brackets.quiet_leave
  (of_quiet get).bind fun _ => (of_quiet _).bind fun _ => h.bind fun _ => (of_quiet _).bind fun _ => of_quiet _

theorem look {next : Token → Parser α} (h : ∀ token, Known tokens token → Guarded tokens (next token)) :
    Guarded tokens (peek >>= next) where
  keeps start run := (h _ start.known_next).keeps start run
  complains start run := (h _ start.known_next).complains start run

theorem number {token : Token} {value : Except Text.NumberFault α} (known : Known tokens token)
    (written : ∀ fault, value = .error fault → numberFault? token.lexeme = some fault) :
    Guarded tokens (fromNumber value) := by
  cases value with
  | ok value => exact of_quiet (pure value)
  | error fault =>
    have wrong := written fault rfl
    refine ⟨fun _ => nofun, fun _ run => ?_⟩
    obtain rfl := ReadError.number.inj (Except.error.inj run)
    obtain within | final := known
    · exact ⟨token, within, wrong⟩
    · rw [final] at wrong
      cases wrong

theorem restore {outer : State} (start : outer.From tokens) :
    Guarded tokens (modify fun inner => { outer with scopes := inner.scopes } : Parser Unit) where
  keeps _ run := by
    obtain ⟨-, rfl⟩ := Prod.mk.inj (Except.ok.inj run)
    exact ⟨start.ahead, start.final⟩
  complains _ := nofun

theorem embedded {parse : Rules} {code : List Token} (pos : Position) (known : ∀ token ∈ code, Known tokens token)
    (h : Guarded tokens (parse (.statements {}))) : Guarded tokens (embedded parse code pos) := by
  have inside (outer : State) (start : outer.From tokens) : Guarded tokens (do
      let statements ← parse (.statements {})
      if !(← atStop {}) then complain .unexpectedInCode
      modify fun inner => { outer with scopes := inner.scopes }
      return Piece.code pos statements) := by
    refine h.bind fun statements => (of_quiet (atStop {})).bind fun stops => ?_
    split
    · exact (of_quiet (complain _)).bind fun _ => (restore start).bind fun _ => of_quiet (pure _)
    · exact (restore start).bind fun _ => of_quiet (pure _)
  exact ⟨fun {state _ _} start run => (inside state start).keeps (from_code known pos _ _) run,
    fun {state _} start run => (inside state start).complains (from_code known pos _ _) run⟩

end Guarded

variable (tokens) in
/-- That no other number is complained of is lifted. -/
def guarding : Lifting where
  good := Known tokens
  sound code := ∀ token ∈ code, Known tokens token
  Related p _ := Guarded tokens p
  inner known among _ mem := known_inner known among mem
  quiet p _ := .of_quiet p
  bind h hnext := Guarded.bind h hnext
  around brackets h := Guarded.around brackets h
  look h := Guarded.look h
  number known written := Guarded.number known written
  embedded pos known h := Guarded.embedded pos known h

variable (tokens) in
theorem guarded_rule (fuel : Nat) : (guarding tokens).Rules (rule fuel) (rule fuel) := by
  induction fuel with
  | zero => exact ⟨fun _ _ => (Guarded.of_quiet peek).bind fun _ => ⟨fun _ => nofun, fun _ => nofun⟩⟩
  | succ fuel ih => exact Lifting.lifted_step ih

theorem misspelt_of_ofTokens {fault : Text.NumberFault} (h : ofTokens tokens = .error (.number fault)) :
    Misspelt tokens fault := by
  have guarded : Guarded tokens (program (rule (enoughFuel tokens))) := Lifting.lifted_program (guarded_rule tokens _)
  have start : (start tokens).From tokens := from_code (fun token mem => .inl (.here mem)) .origin [⟨true, []⟩] 0
  cases run : (program (rule (enoughFuel tokens))).run (Grammar.start tokens) with
  | ok found => simp [ofTokens, run, Except.map] at h
  | error error =>
    rw [ofTokens, run] at h
    obtain rfl := Except.error.inj h
    exact guarded.complains start run

end Grammar

/-- Parsing fails at the grammar, or at a number that is none. -/
theorem misspelt_of_parseRecipe {text : List Char} {fault : Text.NumberFault}
    (h : parseRecipe text = .error (.number fault)) :
    ∃ tokens, tokenize text .origin = .ok tokens ∧ Misspelt tokens fault := by
  unfold parseRecipe at h
  split at h
  · rename_i tokens scanned
    exact ⟨tokens, scanned, Grammar.misspelt_of_ofTokens h⟩
  · cases h

end Formulary
