import Formulary.Proofs.Grammar.Lifting

/-!
Rules that read more. If every rule reads what another one reads, and perhaps more, then so does every construct over
these rules.
-/

namespace Formulary.Grammar

variable {α β : Type}

/-- Whatever `p` reads, `q` reads alike. -/
def Refines (p q : Parser α) : Prop :=
  ∀ ⦃state result⦄, p.run state = .ok result → q.run state = .ok result

def RefinesRules (parse wider : Rules) : Prop :=
  ∀ {α : Type} (rule : Rule α), Refines (parse rule) (wider rule)

namespace Refines

variable {p q : Parser α}

theorem refl (p : Parser α) : Refines p p :=
  fun _ _ => id

theorem of_fails (h : ∀ state result, p.run state ≠ .ok result) : Refines p q :=
  fun state result run => absurd run (h state result)

theorem bind {next next' : α → Parser β} (h : Refines p q) (hnext : ∀ value, Refines (next value) (next' value)) :
    Refines (p >>= next) (q >>= next') := by
  intro state result run
  obtain ⟨value, mid, first, second⟩ := run_bind_eq_ok_iff.1 run
  exact run_bind_eq_ok_iff.2 ⟨value, mid, h first, hnext value second⟩

end Refines

/-- Reading more is lifted, whatever the tokens are. -/
def refinement : Lifting where
  good _ := True
  sound _ := True
  Related := Refines
  inner _ _ := trivial
  quiet p _ := Refines.refl p
  bind h hnext := Refines.bind h hnext
  around _ h := (Refines.refl get).bind fun _ => (Refines.refl _).bind fun _ => Refines.bind h fun _ => .refl _
  look h := (Refines.refl peek).bind fun token => h token trivial
  number _ _ := Refines.refl _
  embedded _ _ h := (Refines.refl get).bind fun _ => (Refines.refl _).bind fun _ => Refines.bind h fun _ => .refl _

variable {parse wider : Rules} (rules : RefinesRules parse wider)
include rules

theorem RefinesRules.lifted : refinement.Rules parse wider :=
  ⟨fun rule _ => rules rule⟩

theorem refines_params (parenthesized : Bool) : Refines (params parse parenthesized) (params wider parenthesized) :=
  Lifting.lifted_params rules.lifted parenthesized

theorem refinesRules_step : RefinesRules (step parse) (step wider) := by
  intro α rule
  refine (Lifting.lifted_step rules.lifted).on rule ?_
  cases rule <;> trivial

theorem refines_program : Refines (program parse) (program wider) :=
  Lifting.lifted_program rules.lifted

end Formulary.Grammar
