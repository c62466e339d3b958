import Formulary.Proofs.Closure.Preorder
import Mathlib.Data.List.Basic

/-!
The requests that a depth-first traversal meets. A request leads to a node, and there may be several requests for one
node: each is met, though only the first is followed.
-/

namespace Formulary.DepthFirst

variable {α β : Type} {place : β → α} {needs : β → List β}

/-- The requests that are met when `todo` is gone through in order, and each request for a new node is followed by
what it needs, all of it before what stands beside it. -/
inductive Encounters (place : β → α) (needs : β → List β) : Set α → List β → List β → Prop
  | done {visited : Set α} : Encounters place needs visited [] []
  | again {visited : Set α} {request : β} {rest met : List β} : place request ∈ visited →
      Encounters place needs visited rest met → Encounters place needs visited (request :: rest) (request :: met)
  | first {visited : Set α} {request : β} {rest below beside : List β} : place request ∉ visited →
      Encounters place needs (insert (place request) visited) (needs request) below →
      Encounters place needs (insert (place request) visited ∪ {node | node ∈ below.map place}) rest beside →
      Encounters place needs visited (request :: rest) (request :: (below ++ beside))

namespace Encounters

variable {visited : Set α} {todo rest met : List β} {request : β}

theorem append_inv {front back : List β} (h : Encounters place needs visited todo met) (split : todo = front ++ back) :
    ∃ first second, met = first ++ second ∧ Encounters place needs visited front first ∧
      Encounters place needs (visited ∪ {node | node ∈ first.map place}) back second := by
  induction h generalizing front with
  | done =>
    obtain ⟨rfl, rfl⟩ := List.append_eq_nil_iff.1 split.symm
    exact ⟨[], [], rfl, .done, .done⟩
  | @again visited request rest met seen below ih =>
    cases front with
    | nil =>
      subst split
      exact ⟨[], _, rfl, .done, by simpa using Encounters.again seen below⟩
    | cons head front =>
      obtain ⟨rfl, tail⟩ := List.cons.inj split
      obtain ⟨first, second, rfl, hfirst, hsecond⟩ := ih tail
      refine ⟨request :: first, second, rfl, .again seen hfirst, ?_⟩
      rwa [List.map_cons, ← union_cons, Set.insert_eq_of_mem seen]
  | @first visited request rest under beside fresh hunder hbeside _ ih =>
    cases front with
    | nil =>
      subst split
      exact ⟨[], _, rfl, .done, by simpa using Encounters.first fresh hunder hbeside⟩
    | cons head front =>
      obtain ⟨rfl, tail⟩ := List.cons.inj split
      obtain ⟨first, second, rfl, hfirst, hsecond⟩ := ih tail
      refine ⟨request :: (under ++ first), second, by simp, .first fresh hunder hfirst, ?_⟩
      rw [union_append, ← List.map_append, union_cons, ← List.map_cons] at hsecond
      exact hsecond

/-- A request for a new node may as well put what it needs in front of what is still to be gone through. -/
theorem of_worklist (fresh : place request ∉ visited)
    (h : Encounters place needs (insert (place request) visited) (needs request ++ rest) met) :
    Encounters place needs visited (request :: rest) (request :: met) := by
  obtain ⟨below, beside, rfl, hbelow, hbeside⟩ := h.append_inv rfl
  exact .first fresh hbelow hbeside

theorem unique {other : List β} (h : Encounters place needs visited todo met)
    (h' : Encounters place needs visited todo other) : other = met := by
  induction h generalizing other with
  | done => cases h'; rfl
  | again seen _ ih =>
    cases h' with
    | again _ hrest => rw [ih hrest]
    | first fresh => exact absurd seen fresh
  | first fresh _ _ ihbelow ihbeside =>
    cases h' with
    | again seen => exact absurd seen fresh
    | first _ hbelow hbeside =>
      obtain rfl := ihbelow hbelow
      obtain rfl := ihbeside hbeside
      rfl

/-- What is met was there at the start, or something needs it. -/
theorem mem_todo_or_needs (h : Encounters place needs visited todo met) :
    ∀ request ∈ met, request ∈ todo ∨ ∃ asking, request ∈ needs asking := by
  induction h with
  | done => exact nofun
  | again _ _ ih =>
    exact List.forall_mem_cons.2 ⟨.inl (.head _), fun request mem => (ih request mem).imp_left (.tail _)⟩
  | @first _ asked _ _ _ _ _ _ ihbelow ihbeside =>
    refine List.forall_mem_cons.2 ⟨.inl (.head _), fun request mem => ?_⟩
    obtain mem | mem := List.mem_append.1 mem
    · exact .inr ((ihbelow request mem).elim (fun needed => ⟨asked, needed⟩) id)
    · exact (ihbeside request mem).imp_left (.tail _)

open Classical in
/-- The nodes that were not met yet. -/
noncomputable def unmet (all : List α) (visited : Set α) : List α :=
  all.filter (· ∉ visited)

theorem length_unmet_lt {all : List α} {node : α} (known : node ∈ all) (fresh : node ∉ visited) :
    (unmet all (insert node visited)).length < (unmet all visited).length := by
  classical
  have split : unmet all (insert node visited) = (unmet all visited).filter (· ≠ node) := by
    rw [unmet, unmet, List.filter_filter]
    exact List.filter_congr fun other _ => by simp
  rw [split, List.length_filter_lt_length_iff_exists]
  exact ⟨node, by simp [unmet, known, fresh], by simp⟩

theorem unmet_of_not_mem {all : List α} {node : α} (unknown : node ∉ all) :
    unmet all (insert node visited) = unmet all visited :=
  List.filter_congr fun other mem => by simp [show other ≠ node from fun eq => unknown (eq ▸ mem)]

/-- Where only finitely many nodes lead on, a traversal comes to an end. -/
theorem exists_of_finite {all : List α} {good : β → Prop}
    (closed : ∀ request, good request → ∀ next ∈ needs request, good next)
    (bounded : ∀ request, good request → place request ∉ all → needs request = []) :
    ∀ (visited : Set α) (todo : List β), (∀ request ∈ todo, good request) →
      ∃ met, Encounters place needs visited todo met
  | _, [], _ => ⟨[], .done⟩
  | visited, request :: rest, start => by
    obtain ⟨here, beside⟩ := List.forall_mem_cons.1 start
    by_cases seen : place request ∈ visited
    · obtain ⟨met, h⟩ := exists_of_finite closed bounded visited rest beside
      exact ⟨request :: met, .again seen h⟩
    · by_cases known : place request ∈ all
      · obtain ⟨met, h⟩ := exists_of_finite closed bounded (insert (place request) visited) (needs request ++ rest)
          (List.forall_mem_append.2 ⟨closed request here, beside⟩)
        exact ⟨request :: met, .of_worklist seen h⟩
      · obtain ⟨met, h⟩ := exists_of_finite closed bounded (insert (place request) visited) rest beside
        exact ⟨request :: met, .of_worklist seen (by rwa [bounded request here known])⟩
termination_by visited todo => ((unmet all visited).length, todo.length)
decreasing_by
  · exact Prod.Lex.right _ (Nat.lt_succ_self _)
  · exact Prod.Lex.left _ _ (length_unmet_lt known seen)
  · rw [unmet_of_not_mem known]
    exact Prod.Lex.right _ (Nat.lt_succ_self _)

/-- If requests are the nodes themselves, the new ones among those that are met are in preorder. -/
theorem exists_preorder {next : α → List α} {todo met : List α} (h : Encounters id next visited todo met) :
    ∃ order, Preorder next visited todo order ∧
      visited ∪ {node | node ∈ met} = visited ∪ {node | node ∈ order} := by
  induction h with
  | done => exact ⟨[], .done, rfl⟩
  | @again visited request rest met seen _ ih =>
    obtain ⟨order, traversal, same⟩ := ih
    refine ⟨order, .skip seen traversal, ?_⟩
    rw [← union_cons, Set.insert_eq_of_mem (show request ∈ visited from seen), same]
  | @first visited request rest below beside fresh _ _ ihbelow ihbeside =>
    obtain ⟨under, hunder, sameUnder⟩ := ihbelow
    obtain ⟨order, horder, same⟩ := ihbeside
    rw [List.map_id] at horder same
    simp only [id_eq] at hunder horder sameUnder same
    rw [sameUnder] at horder same
    refine ⟨request :: (under ++ order), .visit fresh hunder horder, ?_⟩
    rw [← union_cons, ← union_cons, ← union_append, ← union_append, sameUnder, same]

end Encounters

end Formulary.DepthFirst
