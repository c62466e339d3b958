import Formulary.Recipe

/-! What holds of every node of a tree. -/

namespace Formulary

/-- A property of all members of a list. -/
def Throughout {α : Type} (P : α → Prop) (items : List α) : Prop :=
  ∀ item ∈ items, P item

namespace Throughout

variable {α : Type} {P : α → Prop} {item : α} {items others : List α}

theorem nil : Throughout P [] :=
  List.forall_mem_nil _

theorem cons (first : P item) (rest : Throughout P items) : Throughout P (item :: items) :=
  List.forall_mem_cons.2 ⟨first, rest⟩

theorem one (h : P item) : Throughout P [item] :=
  cons h nil

theorem append (first : Throughout P items) (rest : Throughout P others) : Throughout P (items ++ others) :=
  List.forall_mem_append.2 ⟨first, rest⟩

theorem of_cons (h : Throughout P (item :: items)) : P item ∧ Throughout P items :=
  List.forall_mem_cons.1 h

theorem of_append (h : Throughout P (items ++ others)) : Throughout P items ∧ Throughout P others :=
  List.forall_mem_append.1 h

end Throughout

def Piece.inner : Piece Node → List Node
  | text _ => []
  | code _ body => body

namespace Node

/-- The nodes that a node is made of, those of code in a string among them. -/
def children : Node → List Node
  | program _ body | moduleDef _ _ body | methodDef _ _ _ body _ | block _ _ body _ | code _ body => body
  | paren _ body | elseClause _ body => body
  | classDef _ _ superclass body => superclass.toList ++ body
  | call _ _ receiver args attached _ => receiver.toList ++ args ++ attached.toList
  | keywordCall _ _ args | array _ args => args
  | constPath _ scope _ => scope.toList
  | string _ pieces | shell _ pieces => pieces.flatMap Piece.inner
  | hash _ pairs _ => pairs.flatMap fun pair => [pair.1, pair.2]
  | range _ low high _ => low :: high.toList
  | splat _ value _ | blockPass _ value | unary _ _ value => [value]
  | binary _ _ first second | assign _ first second | opAssign _ first _ second => [first, second]
  | branchModifier _ _ first second | rescueModifier _ first second => [first, second]
  | index _ base args => base :: args
  | branch _ _ cond body orelse => cond :: body ++ orelse.toList
  | choice _ cond whenTrue whenFalse => [cond, whenTrue, whenFalse]
  | loop _ _ cond body _ => cond :: body
  | forLoop _ _ iterable body => iterable :: body
  | whenClause _ values body => values ++ body
  | caseOf _ subject whens orelse => subject.toList ++ whens ++ orelse.toList
  | rescueClause _ exceptions _ body => exceptions ++ body
  | guarded _ body rescues elseBody ensureBody => body ++ rescues ++ elseBody ++ ensureBody
  | jump _ _ value => value.toList
  | reference .. | symbol .. | regexp .. | int .. | float .. => []

/-- A property of a node and of all nodes in it. -/
inductive Every (P : Node → Prop) : Node → Prop
  | intro {node : Node} (here : P node) (inner : ∀ child ∈ node.children, Every P child) : Every P node

/-- A node that stands in a tree, or is the tree. -/
inductive Within (tree : Node) : Node → Prop
  | whole : Within tree tree
  | child {node inner : Node} (within : Within tree node) (mem : inner ∈ node.children) : Within tree inner

theorem Within.trans {tree node inner : Node} (h : tree.Within node) (h' : node.Within inner) : tree.Within inner := by
  induction h' with
  | whole => exact h
  | child _ mem ih => exact .child ih mem

namespace Every

variable {P : Node → Prop} {node tree : Node}

theorem here (h : node.Every P) : P node := by
  cases h
  assumption

theorem inner (h : node.Every P) : ∀ child ∈ node.children, child.Every P := by
  cases h
  assumption

theorem within (h : tree.Every P) (within : tree.Within node) : node.Every P := by
  induction within with
  | whole => exact h
  | child _ mem ih => exact ih.inner _ mem

end Every

end Node

/-- The class of a formula and its install method. -/
theorem Recipe.exists_definitions {program : Node} {formula : FormulaClass} {body : List Node}
    (found : findFormulaClass program = some formula) (install : findInstallBody formula = some body) :
    ∃ pos superclass pos' params, .classDef pos formula.name superclass formula.body ∈ topLevel program ∧
      .methodDef pos' "install" params body false ∈ formula.body := by
  obtain ⟨definition, among, known⟩ := List.mem_filterMap.1 (List.mem_of_getLast? found)
  obtain ⟨method, member, defined⟩ := List.exists_of_findSome?_eq_some install
  unfold formulaClass? at known
  split at known
  · split at known
    · obtain rfl := Option.some.inj known
      unfold installBody? at defined
      split at defined
      · obtain rfl := Option.some.inj defined
        exact ⟨_, _, _, _, among, member⟩
      · contradiction
    · contradiction
  · contradiction

theorem Recipe.within_of_findInstallBody {program : Node} {formula : FormulaClass} {body : List Node}
    (found : findFormulaClass program = some formula) (install : findInstallBody formula = some body) :
    ∀ node ∈ body, program.Within node := by
  obtain ⟨pos, superclass, pos', params, among, member⟩ := exists_definitions found install
  have outer : program.Within (.classDef pos formula.name superclass formula.body) := by
    cases program with
    | program pos statements => exact .child .whole among
    | _ => cases among
  exact fun node mem => .child (.child outer (List.mem_append_right _ member)) mem

end Formulary
