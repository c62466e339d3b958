import Formulary.Proofs.Scope.Walk

/-!
Walks beside readers. A reader and a walk over what was read may declare a name a different number of times, and only
the walk passes over names that no variable can have; the same variables are local for both at every point.
-/

namespace Formulary

namespace Scope

theorem isLocal_declare (name other : String) (scope : Scope) (outer : List Scope) :
    isLocal name (declare other (scope :: outer)) = (name == other || isLocal name (scope :: outer)) := by
  simp only [declare, isLocal, List.contains_cons, Bool.or_assoc]

/-- The same variables are local for a walk as for a reader, and all that is local for the walk is so for the reader. -/
structure Agree (scopes walked : List Scope) : Prop where
  read : ∀ name, isLocal name walked → isLocal name scopes
  walked : ∀ name, isVariableName name → isLocal name scopes → isLocal name walked

/-- Stacks of scopes that agree at every depth. -/
inductive Alike : List Scope → List Scope → Prop
  | nil : Alike [] []
  | cons {scope other : Scope} {outer walked : List Scope} (hard : other.hard = scope.hard)
      (agree : Agree (scope :: outer) (other :: walked)) (h : Alike outer walked) : Alike (scope :: outer) (other :: walked)

variable {scopes walked : List Scope} {name : String}

theorem Agree.refl (scopes : List Scope) : Agree scopes scopes :=
  ⟨fun _ h => h, fun _ _ h => h⟩

section

variable {scope other : Scope} {outer outer' : List Scope} (h : Agree (scope :: outer) (other :: outer'))
include h

theorem Agree.declare (name : String) :
    Agree (Scope.declare name (scope :: outer)) (Scope.declare name (other :: outer')) := by
  refine ⟨fun found => ?_, fun found possible => ?_⟩ <;> rw [isLocal_declare, isLocal_declare] <;>
    simp only [Bool.or_eq_true]
  · exact Or.imp_right (h.read found)
  · exact Or.imp_right (h.walked found possible)

/-- A walk may declare a variable anew. -/
theorem Agree.redeclare (known : isLocal name (scope :: outer)) :
    Agree (scope :: outer) (Scope.declare name (other :: outer')) := by
  refine ⟨fun found => ?_, fun found possible => ?_⟩ <;> rw [isLocal_declare, Bool.or_eq_true, beq_iff_eq]
  · rintro (rfl | there)
    · exact known
    · exact h.read found there
  · exact fun there => .inr (h.walked found possible there)

/-- A walk may pass over what no variable can be called. -/
theorem Agree.passOver (odd : isVariableName name = false) :
    Agree (Scope.declare name (scope :: outer)) (other :: outer') := by
  refine ⟨fun found => ?_, fun found possible => ?_⟩ <;> rw [isLocal_declare, Bool.or_eq_true, beq_iff_eq]
  · exact fun there => .inr (h.read found there)
  · rintro (rfl | there)
    · rw [odd] at possible
      contradiction
    · exact h.walked found possible there

end

namespace Alike

theorem refl (scopes : List Scope) : Alike scopes scopes := by
  induction scopes with
  | nil => exact .nil
  | cons scope outer ih => exact .cons rfl (.refl _) ih

theorem agree (h : Alike scopes walked) : Agree scopes walked := by
  cases h with
  | nil => exact .refl []
  | cons _ agree _ => exact agree

theorem push (h : Alike scopes walked) (hard : Bool) : Alike (⟨hard, []⟩ :: scopes) (⟨hard, []⟩ :: walked) := by
  refine .cons rfl ⟨fun name => ?_, fun name possible => ?_⟩ h <;>
    simp only [isLocal, Bool.or_eq_true, Bool.and_eq_true]
  · exact Or.imp_right (And.imp_right (h.agree.read name))
  · exact Or.imp_right (And.imp_right (h.agree.walked name possible))

theorem tail (h : Alike scopes walked) : Alike scopes.tail walked.tail := by
  cases h with
  | nil => exact .nil
  | cons _ _ outer => exact outer

theorem declare (h : Alike scopes walked) (name : String) :
    Alike (Scope.declare name scopes) (Scope.declare name walked) := by
  cases h with
  | nil => exact .nil
  | cons hard agree outer => exact .cons hard (agree.declare name) outer

theorem redeclare (h : Alike scopes walked) (known : isLocal name scopes) :
    Alike scopes (Scope.declare name walked) := by
  cases h with
  | nil => exact .nil
  | cons hard agree outer => exact .cons hard (agree.redeclare known) outer

theorem passOver (h : Alike scopes walked) (odd : isVariableName name = false) :
    Alike (Scope.declare name scopes) walked := by
  cases h with
  | nil => exact .nil
  | cons hard agree outer => exact .cons hard (agree.passOver odd) outer

end Alike

end Scope

namespace Walk

open Scope

@[simp]
theorem nothing_andThen (walk : Walk) : nothing.andThen walk = walk := rfl

@[simp]
theorem andThen_nothing (walk : Walk) : walk.andThen nothing = walk := by
  funext scopes
  simp [andThen, nothing]

@[simp]
theorem andThen_assoc (first second third : Walk) :
    (first.andThen second).andThen third = first.andThen (second.andThen third) := by
  funext scopes
  simp [andThen]

@[simp]
theorem inTurn_nil : inTurn [] = nothing := rfl

@[simp]
theorem inTurn_cons (walk : Walk) (walks : List Walk) : inTurn (walk :: walks) = walk.andThen (inTurn walks) := rfl

@[simp]
theorem byPosition_nil : byPosition [] = nothing := rfl

/-- Whatever is used in a walk is taken for what it is there, and the walk comes to the scopes that a reader comes to. -/
def Follows (walk : Walk) (scopes after : List Scope) : Prop :=
  ∀ ⦃walked⦄, Alike scopes walked →
    Alike after (walk walked).2 ∧ ∀ use ∈ (walk walked).1, use.asVariable = use.declared

namespace Follows

variable {first second walk : Walk} {scopes mid after : List Scope} {name : String}

theorem nothing (scopes : List Scope) : Follows nothing scopes scopes :=
  fun _ alike => ⟨alike, nofun⟩

theorem andThen (h : Follows first scopes mid) (h' : Follows second mid after) :
    Follows (first.andThen second) scopes after := by
  intro walked alike
  obtain ⟨between, good⟩ := h alike
  obtain ⟨behind, good'⟩ := h' between
  exact ⟨behind, List.forall_mem_append.2 ⟨good, good'⟩⟩

theorem inScope {hard : Bool} (h : Follows walk (⟨hard, []⟩ :: scopes) after) :
    Follows (inScope hard walk) scopes after.tail := by
  intro walked alike
  obtain ⟨inside, good⟩ := h (alike.push hard)
  exact ⟨inside.tail, good⟩

theorem declare (name : String) (scopes : List Scope) :
    Follows (declare name) scopes (Scope.declare name scopes) :=
  fun _ alike => ⟨alike.declare name, nofun⟩

theorem redeclare (known : isLocal name scopes) : Follows (Walk.declare name) scopes scopes :=
  fun _ alike => ⟨alike.redeclare known, nofun⟩

theorem passOver (odd : isVariableName name = false) : Follows Walk.nothing scopes (Scope.declare name scopes) :=
  fun _ alike => ⟨alike.passOver odd, nofun⟩

theorem mention_variable (possible : isVariableName name) (known : isLocal name scopes) :
    Follows (mention name true) scopes scopes := by
  refine fun walked alike => ⟨alike, List.forall_mem_singleton.2 ?_⟩
  exact (alike.agree.walked name possible known).symm

theorem mention_call (unknown : isLocal name scopes = false) : Follows (mention name false) scopes scopes := by
  refine fun walked alike => ⟨alike, List.forall_mem_singleton.2 ?_⟩
  cases found : isLocal name walked with
  | false => rfl
  | true => rw [alike.agree.read name found] at unknown; contradiction

/-- What is mentioned after a walk needs not be mentioned. -/
theorem of_mention {asVariable : Bool} (h : Follows (walk.andThen (mention name asVariable)) scopes after) :
    Follows walk scopes after :=
  fun _ alike => ⟨(h alike).1, (List.forall_mem_append.1 (h alike).2).1⟩

theorem isLocal_of_mention (h : Follows (walk.andThen (mention name true)) scopes after) : isLocal name after := by
  obtain ⟨behind, good⟩ := h (.refl scopes)
  have found := good ⟨name, true, _⟩ (List.mem_append_right _ (List.mem_singleton_self _))
  exact behind.agree.read name found.symm

end Follows

end Walk

end Formulary
