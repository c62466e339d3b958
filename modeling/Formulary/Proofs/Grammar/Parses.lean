import Formulary.Proofs.Grammar.Depth
import Formulary.Proofs.Grammar.Refinement
import Mathlib.Order.Filter.AtTopBot.Basic

/-!
What the rules read, whatever the number of calls it takes. More calls never change what is read, and the calls that a
token list is given suffice for it.
-/

namespace Formulary.Grammar

open Filter (Eventually atTop)

variable {α β : Type} {state after after' : State} {value value' : α}

theorem refines_rule {fuel more : Nat} (le : fuel ≤ more) (r : Rule α) : Refines (rule fuel r) (rule more r) := by
  have rules : RefinesRules (rule fuel) (rule more) := by
    induction fuel generalizing more with
    | zero => exact fun r => Refines.of_fails fun state result => nofun
    | succ fuel ih =>
      obtain ⟨more, rfl⟩ := Nat.exists_eq_succ_of_ne_zero (Nat.ne_of_gt (Nat.lt_of_lt_of_le fuel.succ_pos le))
      exact refinesRules_step (ih (Nat.le_of_succ_le_succ le))
  exact rules r

/-- What a rule reads when calls may go as deep as they must. -/
def Parses (r : Rule α) (state : State) (value : α) (after : State) : Prop :=
  ∃ fuel, (rule fuel r).run state = .ok (value, after)

namespace Parses

variable {r : Rule α}

theorem eventually (h : Parses r state value after) :
    ∀ᶠ fuel in atTop, (rule fuel r).run state = .ok (value, after) := by
  obtain ⟨bound, run⟩ := h
  exact Filter.eventually_atTop.2 ⟨bound, fun fuel le => refines_rule le r run⟩

theorem of_step (h : ∀ᶠ fuel in atTop, (step (rule fuel) r).run state = .ok (value, after)) :
    Parses r state value after := by
  obtain ⟨fuel, run⟩ := h.exists
  exact ⟨fuel + 1, run⟩

theorem unique (h : Parses r state value after) (h' : Parses r state value' after') :
    value = value' ∧ after = after' := by
  obtain ⟨fuel, run, run'⟩ := (h.eventually.and h'.eventually).exists
  rw [run] at run'
  exact Prod.mk.inj (Except.ok.inj run')

end Parses

/-! Programs -/

/-- Parsers that do the same, unless the first one complains about the depth of the text. -/
def Agrees (p q : Parser α) : Prop :=
  ∀ state, (∃ fault, p.run state = .error fault ∧ Deep fault) ∨ q.run state = p.run state

namespace Agrees

variable {p q : Parser α}

theorem refl (p : Parser α) : Agrees p p :=
  fun _ => .inr rfl

theorem bind {next next' : α → Parser β} (h : Agrees p q) (hnext : ∀ value, Agrees (next value) (next' value)) :
    Agrees (p >>= next) (q >>= next') := by
  intro state
  rw [StateT.run_bind, StateT.run_bind]
  obtain ⟨fault, run, deep⟩ | same := h state
  · exact .inl ⟨fault, by rw [run]; rfl, deep⟩
  · rw [same]
    cases p.run state with
    | error fault => exact .inr rfl
    | ok found => exact hnext found.1 found.2

end Agrees

/-- Doing the same up to the depth of the text is lifted, whatever the tokens are. -/
def agreement : Lifting where
  good _ := True
  sound _ := True
  Related := Agrees
  inner _ _ := trivial
  quiet p _ := Agrees.refl p
  bind h hnext := Agrees.bind h hnext
  around _ h := (Agrees.refl get).bind fun _ => (Agrees.refl _).bind fun _ => Agrees.bind h fun _ => .refl _
  look h := (Agrees.refl peek).bind fun token => h token trivial
  number _ _ := Agrees.refl _
  embedded _ _ h := (Agrees.refl get).bind fun _ => (Agrees.refl _).bind fun _ => Agrees.bind h fun _ => .refl _

theorem agrees_rule {fuel more : Nat} (le : fuel ≤ more) : agreement.Rules (rule fuel) (rule more) := by
  induction fuel generalizing more with
  | zero => exact ⟨fun _ _ state => .inl ⟨_, rfl, .intro rfl⟩⟩
  | succ fuel ih =>
    obtain ⟨more, rfl⟩ := Nat.exists_eq_succ_of_ne_zero (Nat.ne_of_gt (Nat.lt_of_lt_of_le fuel.succ_pos le))
    exact Lifting.lifted_step (ih (Nat.le_of_succ_le_succ le))

theorem meets_end_iff {lexeme : Lexeme Token} : Stop.meets {} lexeme = true ↔ lexeme = .endOfText := by
  cases lexeme <;> simp [Stop.meets]

/-- The state in which the tokens of a text are read, with names declared before. -/
def State.within (tokens : List Token) (pos : Position) (scopes : List Scope) : State :=
  ⟨tokens.dropLast, tokens.getLast?.getD ⟨.endOfText, pos, true⟩, scopes, 0⟩

theorem run_embedded_eq_ok_iff {parse : Rules} {tokens : List Token} {pos : Position} {piece : Piece Node} :
    (embedded parse tokens pos).run state = .ok (piece, after) ↔ ∃ statements last,
      (parse (.statements {})).run (.within tokens pos state.scopes) = .ok (statements, last) ∧
        last.next.lexeme = .endOfText ∧ piece = .code pos statements ∧ after = { state with scopes := last.scopes } := by
  have begins : (embedded parse tokens pos).run state = (do
      let statements ← parse (.statements {})
      if !(← atStop {}) then complain .unexpectedInCode
      modify fun inner => { state with scopes := inner.scopes }
      return .code pos statements : Parser (Piece Node)).run (.within tokens pos state.scopes) := rfl
  rw [begins, run_bind_eq_ok_iff]
  refine exists_congr fun statements => exists_congr fun last => and_congr_right fun _ => ?_
  rw [run_bind_of_ok (run_atStop last _), ← meets_end_iff]
  cases Stop.meets {} last.next.lexeme with
  | true =>
    constructor
    · intro run
      obtain ⟨rfl, rfl⟩ := Prod.mk.inj (Except.ok.inj run)
      exact ⟨rfl, rfl, rfl⟩
    · rintro ⟨-, rfl, rfl⟩
      rfl
  | false => exact ⟨nofun, nofun⟩

theorem run_program_eq_ok_iff {parse : Rules} {node : Node} :
    (program parse).run state = .ok (node, after) ↔ ∃ statements,
      (parse (.statements {})).run state = .ok (statements, after) ∧ after.next.lexeme = .endOfText ∧
        node = .program .origin statements := by
  rw [program, run_bind_eq_ok_iff]
  refine exists_congr fun statements => ?_
  constructor
  · rintro ⟨mid, run, rest⟩
    rw [run_bind_of_ok (run_atStop mid _)] at rest
    cases ends : Stop.meets {} mid.next.lexeme with
    | true =>
      rw [ends] at rest
      obtain ⟨rfl, rfl⟩ := Prod.mk.inj (Except.ok.inj rest)
      exact ⟨run, meets_end_iff.1 ends, rfl⟩
    | false =>
      rw [ends] at rest
      cases rest
  · rintro ⟨run, ends, rfl⟩
    refine ⟨after, run, ?_⟩
    rw [run_bind_of_ok (run_atStop after _), meets_end_iff.2 ends]
    rfl

/-- A token list has the tree that the rules read from it, whatever the number of calls this takes. -/
theorem ofTokens_eq_ok_iff {tokens : List Token} {node : Node} (capped : Capped tokens) :
    ofTokens tokens = .ok node ↔ ∃ statements after, Parses (.statements {}) (start tokens) statements after ∧
      after.next.lexeme = .endOfText ∧ node = .program .origin statements := by
  constructor
  · intro read
    obtain ⟨⟨_, after⟩, run, rfl⟩ := Result.map_eq_ok_iff.1 read
    obtain ⟨statements, run, ends, same⟩ := run_program_eq_ok_iff.1 run
    exact ⟨statements, after, ⟨_, run⟩, ends, same⟩
  · rintro ⟨statements, after, parses, ends, same⟩
    obtain ⟨fuel, run, le⟩ := (parses.eventually.and (Filter.eventually_ge_atTop (enoughFuel tokens))).exists
    have whole := run_program_eq_ok_iff.2 ⟨statements, run, ends, same⟩
    have agrees : Agrees (program (rule (enoughFuel tokens))) (program (rule fuel)) :=
      Lifting.lifted_program (agrees_rule le)
    obtain ⟨fault, failed, deep⟩ | alike := agrees (start tokens)
    · refine absurd deep (ofTokens_not_deep capped ?_)
      rw [ofTokens, failed]
      rfl
    · rw [ofTokens, ← alike, whole]
      rfl

end Formulary.Grammar
