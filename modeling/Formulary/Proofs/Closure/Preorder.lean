import Mathlib.Data.Set.Insert
import Mathlib.Logic.Relation

/-! Depth-first traversal of a graph in which each node has a list of successors. -/

namespace Formulary.DepthFirst

variable {α : Type} {next : α → List α}

/-- The nodes that are first met when `todo` is gone through in order and each new node is followed by its
successors, all of them before what stands beside it. -/
inductive Preorder (next : α → List α) : Set α → List α → List α → Prop
  | done {visited : Set α} : Preorder next visited [] []
  | skip {visited : Set α} {node : α} {rest order : List α} : node ∈ visited →
      Preorder next visited rest order → Preorder next visited (node :: rest) order
  | visit {visited : Set α} {node : α} {rest below beside : List α} : node ∉ visited →
      Preorder next (insert node visited) (next node) below →
      Preorder next (insert node visited ∪ {other | other ∈ below}) rest beside →
      Preorder next visited (node :: rest) (node :: (below ++ beside))

/-- There is an edge from a node to each of its successors. -/
def Edge (next : α → List α) (source target : α) : Prop :=
  target ∈ next source

theorem union_append (visited : Set α) (first second : List α) :
    visited ∪ {node | node ∈ first} ∪ {node | node ∈ second} = visited ∪ {node | node ∈ first ++ second} := by
  ext node
  simp [or_assoc]

theorem union_cons (visited : Set α) (node : α) (order : List α) :
    insert node visited ∪ {other | other ∈ order} = visited ∪ {other | other ∈ node :: order} := by
  ext other
  simp [or_assoc, or_left_comm]

namespace Preorder

variable {visited : Set α} {todo rest order : List α} {node : α}

theorem append_inv {front back : List α} (h : Preorder next visited todo order) (split : todo = front ++ back) :
    ∃ first second, order = first ++ second ∧ Preorder next visited front first ∧
      Preorder next (visited ∪ {node | node ∈ first}) back second := by
  induction h generalizing front with
  | done =>
    obtain ⟨rfl, rfl⟩ := List.append_eq_nil_iff.1 split.symm
    exact ⟨[], [], rfl, .done, .done⟩
  | @skip visited node rest order mem below ih =>
    cases front with
    | nil =>
      subst split
      exact ⟨[], order, rfl, .done, by simpa using Preorder.skip mem below⟩
    | cons head front =>
      obtain ⟨rfl, tail⟩ := List.cons.inj split
      obtain ⟨first, second, rfl, hfirst, hsecond⟩ := ih tail
      exact ⟨first, second, rfl, .skip mem hfirst, hsecond⟩
  | @visit visited node rest under beside fresh hunder hbeside _ ih =>
    cases front with
    | nil =>
      subst split
      exact ⟨[], _, rfl, .done, by simpa using Preorder.visit fresh hunder hbeside⟩
    | cons head front =>
      obtain ⟨rfl, tail⟩ := List.cons.inj split
      obtain ⟨first, second, rfl, hfirst, hsecond⟩ := ih tail
      refine ⟨node :: (under ++ first), second, by simp, .visit fresh hunder hfirst, ?_⟩
      rwa [union_append, union_cons] at hsecond

/-- A new node may as well put its successors in front of what is still to be gone through. -/
theorem of_worklist (fresh : node ∉ visited) (h : Preorder next (insert node visited) (next node ++ rest) order) :
    Preorder next visited (node :: rest) (node :: order) := by
  obtain ⟨below, beside, rfl, hbelow, hbeside⟩ := h.append_inv rfl
  exact .visit fresh hbelow hbeside

theorem unique {other : List α} (h : Preorder next visited todo order) (h' : Preorder next visited todo other) :
    other = order := by
  induction h generalizing other with
  | done => cases h'; rfl
  | skip mem _ ih =>
    cases h' with
    | skip _ hrest => exact ih hrest
    | visit fresh => exact absurd mem fresh
  | visit fresh _ _ ihbelow ihbeside =>
    cases h' with
    | skip mem => exact absurd mem fresh
    | visit _ hbelow hbeside =>
      obtain rfl := ihbelow hbelow
      obtain rfl := ihbeside hbeside
      rfl

theorem covers_todo (h : Preorder next visited todo order) : ∀ node ∈ todo, node ∈ visited ∨ node ∈ order := by
  induction h with
  | done => simp
  | skip seen _ ih =>
    intro node mem
    obtain rfl | mem := List.mem_cons.1 mem
    · exact .inl seen
    · exact ih node mem
  | visit fresh _ _ _ ihbeside =>
    intro node mem
    obtain rfl | mem := List.mem_cons.1 mem
    · exact .inr (.head _)
    · obtain ((rfl | seen) | under) | mem := ihbeside node mem
      · exact .inr (.head _)
      · exact .inl seen
      · exact .inr (.tail _ (List.mem_append_left _ under))
      · exact .inr (.tail _ (List.mem_append_right _ mem))

theorem covers_successors (h : Preorder next visited todo order) :
    ∀ source ∈ order, ∀ target ∈ next source, target ∈ visited ∨ target ∈ order := by
  induction h with
  | done => simp
  | skip _ _ ih => exact ih
  | @visit visited node rest below beside fresh hbelow _ ihbelow ihbeside =>
    have widen (target : α) : target ∈ insert node visited ∨ target ∈ below →
        target ∈ visited ∨ target ∈ node :: (below ++ beside) := by
      rintro ((rfl | seen) | under)
      · exact .inr (.head _)
      · exact .inl seen
      · exact .inr (.tail _ (List.mem_append_left _ under))
    intro source mem target edge
    obtain rfl | mem := List.mem_cons.1 mem
    · exact widen target (hbelow.covers_todo target edge)
    · obtain mem | mem := List.mem_append.1 mem
      · exact widen target (ihbelow source mem target edge)
      · obtain before | mem := ihbeside source mem target edge
        · exact widen target before
        · exact .inr (.tail _ (List.mem_append_right _ mem))

theorem reachable (h : Preorder next visited todo order) :
    ∀ target ∈ order, ∃ source ∈ todo, Relation.ReflTransGen (Edge next) source target := by
  induction h with
  | done => simp
  | skip _ _ ih =>
    intro target mem
    obtain ⟨source, hsource, path⟩ := ih target mem
    exact ⟨source, .tail _ hsource, path⟩
  | @visit visited node _ _ _ _ _ _ ihbelow ihbeside =>
    intro target mem
    obtain rfl | mem := List.mem_cons.1 mem
    · exact ⟨target, .head _, .refl⟩
    · obtain mem | mem := List.mem_append.1 mem
      · obtain ⟨source, hsource, path⟩ := ihbelow target mem
        exact ⟨node, .head _, .head hsource path⟩
      · obtain ⟨source, hsource, path⟩ := ihbeside target mem
        exact ⟨source, .tail _ hsource, path⟩

/-- A traversal from one node meets just the nodes that can be reached from it. -/
theorem mem_iff_reachable {root : α} (h : Preorder next ∅ [root] order) (target : α) :
    target ∈ order ↔ Relation.ReflTransGen (Edge next) root target := by
  constructor
  · intro mem
    obtain ⟨source, hsource, path⟩ := h.reachable target mem
    rwa [List.mem_singleton.1 hsource] at path
  · intro path
    induction path with
    | refl => exact (h.covers_todo root (.head _)).resolve_left id
    | tail _ edge ih => exact (h.covers_successors _ ih _ edge).resolve_left id

end Preorder

end Formulary.DepthFirst
