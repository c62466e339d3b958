import Formulary.Proofs.Grammar.Refinement

/-!
Texts in which no parameter has a default value. A grammar without such values reads them, and whatever it reads, the
whole grammar reads alike.
-/

namespace Formulary

namespace Grammar

/-- The rules, but none for a value where a parameter could have one. -/
def withoutValues (parse : Rules) : Rules := fun _ rule =>
  match rule with
  | .choice => complain .unexpected
  | rule => parse rule

/-- A step of the grammar that reads no default values of parameters. -/
def plainStep (parse : Rules) : Rules := fun _ rule =>
  match rule with
  | .params parenthesized => params (withoutValues parse) parenthesized
  | rule => step parse rule

def plainRule : Nat → Rules
  | 0 => rule 0
  | fuel + 1 => plainStep (plainRule fuel)

/-- The syntax tree of tokens among which no parameter has a default value. -/
def plainOfTokens (tokens : List Token) : Except ReadError Node :=
  ((program (plainRule (enoughFuel tokens))).run (start tokens)).map (·.1)

variable {parse wider : Rules}

theorem refinesRules_withoutValues (rules : RefinesRules parse wider) : RefinesRules (withoutValues parse) wider := by
  intro α rule
  have read := rules rule
  cases rule with
  | choice => exact .of_fails nofun
  | _ => exact read

theorem refinesRules_plainStep (rules : RefinesRules parse wider) : RefinesRules (plainStep parse) (step wider) := by
  intro α rule
  have read := refinesRules_step rules rule
  cases rule with
  | params parenthesized => exact refines_params (refinesRules_withoutValues rules) parenthesized
  | _ => exact read

theorem refinesRules_plainRule (fuel : Nat) : RefinesRules (plainRule fuel) (rule fuel) := by
  induction fuel with
  | zero => exact fun _ => .refl _
  | succ fuel ih => exact refinesRules_plainStep ih

theorem ofTokens_of_plain {tokens : List Token} {tree : Node} (h : plainOfTokens tokens = .ok tree) :
    ofTokens tokens = .ok tree := by
  obtain ⟨result, run, rfl⟩ := Result.map_eq_ok_iff.1 h
  rw [ofTokens, refines_program (refinesRules_plainRule _) run]
  rfl

end Grammar

open Grammar in
/-- The syntax tree of a text in which no parameter has a default value. -/
def parsePlain (text : List Char) : Except ReadError Node :=
  match tokenize text .origin with
  | .ok tokens => plainOfTokens tokens
  | .error error => .error (.malformed error)

/-- No parameter in a text has a default value, so that the text can be read without any. -/
def DefaultFree (text : List Char) : Prop :=
  (parsePlain text).toOption.isSome

instance (text : List Char) : Decidable (DefaultFree text) :=
  inferInstanceAs (Decidable (_ = true))

theorem DefaultFree.parsePlain_eq {text : List Char} (h : DefaultFree text) : parsePlain text = parseRecipe text := by
  cases plain : parsePlain text with
  | error error =>
    rw [DefaultFree, plain] at h
    contradiction
  | ok tree =>
    unfold parsePlain at plain
    split at plain
    · rename_i tokens found
      rw [parseRecipe, found]
      exact (Grammar.ofTokens_of_plain plain).symm
    · contradiction

end Formulary
