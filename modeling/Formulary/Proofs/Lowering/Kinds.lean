import Formulary.Instruction.Lowering
import Formulary.Proofs.Result

/-!
What the statement around a construct has to do with how it is lowered: an error names it, and nothing else depends on
it. So a call is lowered alike with and without parentheses, up to the statement that an error names.
-/

namespace Formulary.Lowering

variable {α β : Type}

/-- The same result, or errors for constructs of the same kind. -/
def SameKind (first second : Result α) : Prop :=
  first.mapError Unsupported.kind = second.mapError Unsupported.kind

namespace SameKind

theorem refl (first : Result α) : SameKind first first := rfl

theorem bind {first second : Result α} {next next' : α → Result β} (h : SameKind first second)
    (hnext : ∀ value, SameKind (next value) (next' value)) : SameKind (first >>= next) (second >>= next') := by
  cases first with
  | ok value =>
    cases second with
    | ok value' =>
      obtain rfl : value = value' := Except.ok.inj h
      exact hnext value
    | error fault => cases h
  | error fault =>
    cases second with
    | ok value => cases h
    | error fault' => exact congrArg Except.error (Except.error.inj h)

end SameKind

theorem sameKind_expression (within within' : Option Enclosing) :
    (∀ node, SameKind (expression within node) (expression within' node)) ∧
    (∀ nodes, SameKind (expressions within nodes) (expressions within' nodes)) ∧
    (∀ pieces, SameKind (parts within pieces) (parts within' pieces)) ∧
    (∀ pos body, SameKind (embedded within pos body) (embedded within' pos body)) := by
  apply expression.mutual_induct
  case case14 =>
    intro node _ _ _ _ _ _ _ _ _ _ _ _ _
    rw [expression, expression] <;> first | assumption | rfl
  case case19 =>
    intro pos body _
    rw [embedded, embedded] <;> first | assumption | rfl
  all_goals
    intros
    simp only [expression, expressions, parts, embedded, Bool.false_eq_true, ↓reduceIte, *]
    repeat' first | exact SameKind.refl _ | assumption | refine SameKind.bind ?_ fun _ => ?_

/-- Of a call without a block, parentheses make only another kind of statement. -/
theorem sameKind_call (within within' : Option Enclosing) (pos : Position) (name : String) (args : List Node)
    (parens parens' : Bool) : SameKind (statement within (.call pos name none args none parens))
      (statement within' (.call pos name none args none parens')) := by
  have lowered : SameKind (expressions within args) (expressions within' args) :=
    (sameKind_expression within within').2.1 args
  cases args with
  | nil => exact .refl _
  | cons first rest =>
    rw [statement, statement]
    exact .bind (.refl _) fun receiver => .bind lowered fun args => .refl _

theorem sameKind_lowerInstall (pos : Position) (name : String) (args before following : List Node)
    (parens parens' : Bool) : SameKind (lowerInstall (before ++ .call pos name none args none parens :: following))
      (lowerInstall (before ++ .call pos name none args none parens' :: following)) := by
  induction before with
  | nil =>
    rw [List.nil_append, List.nil_append, lowerInstall, lowerInstall, body, body]
    exact .bind (sameKind_call _ _ pos name args parens parens') fun _ => .refl _
  | cons node before ih =>
    rw [List.cons_append, List.cons_append, lowerInstall, lowerInstall, body, body]
    exact .bind (.refl _) fun _ => .bind ih fun _ => .refl _

end Formulary.Lowering
