import Formulary.Proofs.Lowering.Derivation
import Formulary.Proofs.Tree.Lines

/-!
Where nodes stand in an install body, and which of them have no counterpart there. Lowering visits a node and then its
parts, each with what stands in it, in an order that is not always that of the source: an else part comes before the
condition, the condition before the statement that it modifies, and arguments come before their receiver.
-/

namespace Formulary

/-- The place of a node: that of a statement, of what parentheses alone hold in such a place, of an operand, or of
embedded code among the pieces of a string. -/
inductive Standing where
  | statement
  | grouped
  | operand
  | embedded
deriving DecidableEq

/-- The place of what parentheses hold. -/
def Standing.inParens : Standing → Standing
  | statement | grouped => grouped
  | operand | embedded => operand

namespace Node

/-- The statements in the place of an else clause. -/
def furtherStatements : Option Node → List Node
  | some (elseClause _ body) => body
  | some node => if node.isBranch then [node] else []
  | none => []

/-- The nodes that stand in a node, in the order of the source. Those of an array do not count. -/
def placedParts (standing : Standing) : Node → List (Standing × Node)
  | array .. => []
  | string _ pieces | shell _ pieces => (pieces.filterMap Piece.code?).map (.embedded, ·)
  | paren _ body => body.map (standing.inParens, ·)
  | branch _ _ cond body orelse =>
    (.operand, cond) :: (body.map (.statement, ·) ++ (furtherStatements orelse).map (.statement, ·))
  | branchModifier _ _ cond statement => [(.statement, statement), (.operand, cond)]
  | node => node.constituents.map (.operand, ·)

/-- The parts of a node in the order in which they are lowered. -/
def order (standing : Standing) : Node → List (Standing × Node)
  | call _ _ receiver args none _ =>
    match standing with
    | .operand => (args ++ receiver.toList).map (.operand, ·)
    | _ => (receiver.toList ++ args).map (.operand, ·)
  | branch _ _ cond body orelse =>
    (furtherStatements orelse).map (.statement, ·) ++ (.operand, cond) :: body.map (.statement, ·)
  | branchModifier _ _ cond statement => [(.operand, cond), (.statement, statement)]
  | node => node.placedParts standing

/-- The parts that are lowered before others though the source has them behind these, and those others: the arguments
and their receiver, the else part and the condition with its branch, the condition and the statement that it
modifies. -/
def swapped (standing : Standing) : Node → List (Standing × Node) × List (Standing × Node)
  | call _ _ receiver args none _ =>
    if standing = .operand then (args.map (.operand, ·), receiver.toList.map (.operand, ·)) else ([], [])
  | branch _ _ cond body orelse =>
    ((furtherStatements orelse).map (.statement, ·), (.operand, cond) :: body.map (.statement, ·))
  | branchModifier _ _ cond statement => ([(.operand, cond)], [(.statement, statement)])
  | _ => ([], [])

theorem eq_call_of_bareName? {node : Node} {name : String} (h : node.bareName? = some name) :
    ∃ pos, node = .call pos name none [] none false := by
  unfold bareName? at h
  split at h
  · exact ⟨_, congrArg (Node.call _ · none [] none false) (Option.some.inj h)⟩
  · contradiction

/-- A node that has no counterpart where it stands, whatever stands in it. -/
def isUnsupported (standing : Standing) : Node → Bool
  | code _ body => standing != .embedded || body.length != 1
  | node => standing == .embedded ||
    match node with
    | string .. | symbol .. | int .. | array .. | reference .. | binary .. | unary .. | assign .. => false
    | call _ _ _ _ attached _ => attached.isSome
    | index _ _ args => args.length != 1
    | splat _ _ double => double
    | paren _ body => body.length != 1
    | branch .. | branchModifier .. => standing == .operand
    | _ => true

theorem eq_singleton {nodes : List Node} (h : (nodes.length != 1) = false) : ∃ node, nodes = [node] :=
  List.length_eq_one_iff.1 (by simpa using h)

/-- The line of a node, if it has one. -/
def line? (node : Node) : Option Nat :=
  if node.line = 0 then none else some node.line

end Node

/-- A node where it stands, with the innermost statement around it. -/
structure Occurrence where
  statement : Node
  standing : Standing
  node : Node

namespace Occurrence

/-- A statement is the innermost one around itself. -/
def ofStatement (node : Node) : Occurrence :=
  ⟨node, .statement, node⟩

/-- A part of the node, where it stands. -/
def into (occurrence : Occurrence) : Standing × Node → Occurrence
  | (.statement, inner) => ofStatement inner
  | (place, inner) => ⟨occurrence.statement, place, inner⟩

def parts (occurrence : Occurrence) : List Occurrence :=
  (occurrence.node.placedParts occurrence.standing).map occurrence.into

def order (occurrence : Occurrence) : List Occurrence :=
  (occurrence.node.order occurrence.standing).map occurrence.into

def isUnsupported (occurrence : Occurrence) : Bool :=
  occurrence.node.isUnsupported occurrence.standing

end Occurrence

/-- What stands in a body: its members, which are statements, and all parts of what stands in it. Further statements are
the members of the branches of a conditional, the statement under a modifier and the further tests of a conditional. -/
inductive Stands (body : List Node) : Occurrence → Prop
  | member {node : Node} (mem : node ∈ body) : Stands body (.ofStatement node)
  | part {outer inner : Occurrence} (stands : Stands body outer) (mem : inner ∈ outer.parts) : Stands body inner

/-! The order in which nodes are visited -/

namespace Node

theorem sizeOf_of_code {code : Node} {pieces : List (Piece Node)} (h : code ∈ pieces.filterMap Piece.code?) :
    sizeOf code < sizeOf pieces := by
  obtain ⟨piece, mem, same⟩ := List.mem_filterMap.1 h
  have smaller := List.sizeOf_lt_of_mem mem
  cases piece with
  | text => cases same
  | code =>
    cases same
    simpa using smaller

theorem sizeOf_of_child {node inner : Node} (h : inner ∈ node.children) : sizeOf inner < sizeOf node := by
  have listed {nodes : List Node} (mem : inner ∈ nodes) : sizeOf inner < sizeOf nodes := List.sizeOf_lt_of_mem mem
  have given {found : Option Node} (mem : found = some inner) : sizeOf inner < sizeOf found := by
    subst mem
    simp
  have paired {pairs : List (Node × Node)} {key content : Node} (mem : (key, content) ∈ pairs) :
      sizeOf key < sizeOf pairs ∧ sizeOf content < sizeOf pairs := by
    have smaller := List.sizeOf_lt_of_mem mem
    simp only [Prod.mk.sizeOf_spec] at smaller
    omega
  have held {pieces : List (Piece Node)} {piece : Piece Node} (mem : piece ∈ pieces) (among : inner ∈ piece.inner) :
      sizeOf inner < sizeOf pieces := by
    have smaller := List.sizeOf_lt_of_mem mem
    cases piece with
    | text => cases among
    | code pos body =>
      have inside : sizeOf inner < sizeOf body := listed among
      simp only [Piece.code.sizeOf_spec] at smaller
      omega
  cases node
  all_goals
    simp only [children, List.mem_append, List.mem_cons, Option.mem_toList, List.not_mem_nil, or_false,
      List.mem_flatMap, Prod.exists] at h <;> grind

/-- The order of the parts is that of the source, but for those that are swapped. -/
theorem order_cases (node : Node) (standing : Standing) :
    node.order standing = node.placedParts standing ∨
      node.order standing = (node.swapped standing).1 ++ (node.swapped standing).2 ∧
        node.placedParts standing = (node.swapped standing).2 ++ (node.swapped standing).1 := by
  cases node with
  | call pos name receiver args attached parens =>
    cases attached with
    | some attached => exact .inl rfl
    | none =>
      cases standing with
      | operand => exact .inr ⟨List.map_append, by simp [placedParts, constituents, children, swapped]⟩
      | _ => exact .inl (by simp [order, placedParts, constituents, children])
  | branch | branchModifier => exact .inr ⟨rfl, rfl⟩
  | _ => exact .inl rfl

theorem mem_order_iff {node : Node} {standing : Standing} {part : Standing × Node} :
    part ∈ node.order standing ↔ part ∈ node.placedParts standing := by
  obtain same | ⟨visited, source⟩ := node.order_cases standing
  · rw [same]
  · rw [visited, source, List.mem_append, List.mem_append, or_comm]

theorem sizeOf_of_constituent {node held : Node} (h : held ∈ node.constituents) : sizeOf held < sizeOf node := by
  unfold constituents at h
  split at h
  · have := sizeOf_of_code h
    simp only [string.sizeOf_spec]
    omega
  · have := sizeOf_of_code h
    simp only [shell.sizeOf_spec]
    omega
  · exact sizeOf_of_child (by simpa [children, or_comm] using h)
  · exact sizeOf_of_child (by simpa [children, or_comm] using h)
  · exact sizeOf_of_child h

theorem mem_of_placed {held : Node} {place given : Standing} {nodes : List Node}
    (h : (place, held) ∈ nodes.map (given, ·)) : held ∈ nodes := by
  obtain ⟨node, mem, same⟩ := List.mem_map.1 h
  cases same
  exact mem

theorem further_cases {held : Node} {orelse : Option Node} (h : held ∈ furtherStatements orelse) :
    orelse = some held ∨ ∃ pos body, orelse = some (.elseClause pos body) ∧ held ∈ body := by
  unfold furtherStatements at h
  split at h
  · exact .inr ⟨_, _, rfl, h⟩
  · split at h
    · exact .inl (congrArg some (List.mem_singleton.1 h).symm)
    · cases h
  · cases h

theorem place_of_placed {held : Node} {place given : Standing} {nodes : List Node}
    (h : (place, held) ∈ nodes.map (given, ·)) : place = given := by
  obtain ⟨node, mem, same⟩ := List.mem_map.1 h
  cases same
  rfl

/-- A part is in the node itself or in an else clause of it. -/
theorem part_cases {node : Node} {standing : Standing} {part : Standing × Node}
    (h : part ∈ node.placedParts standing) :
    part.1 = .embedded ∧ part.2 ∈ node.constituents ∨ part.2 ∈ node.surface ∨
      ∃ clause ∈ node.surface, part.2 ∈ clause.surface := by
  obtain ⟨place, held⟩ := part
  unfold placedParts at h
  split at h
  · cases h
  · exact .inl ⟨place_of_placed h, mem_of_placed h⟩
  · exact .inl ⟨place_of_placed h, mem_of_placed h⟩
  · exact .inr (.inl (mem_of_placed h))
  · rename_i pos head cond body orelse
    obtain same | h := List.mem_cons.1 h
    · cases same
      exact .inr (.inl (List.mem_append_left _ List.mem_cons_self))
    obtain h | h := List.mem_append.1 h
    · exact .inr (.inl (List.mem_append_left _ (List.mem_cons_of_mem _ (mem_of_placed h))))
    · obtain rfl | ⟨pos, members, rfl, mem⟩ := further_cases (mem_of_placed h)
      · exact .inr (.inl (List.mem_append_right _ List.mem_cons_self))
      · exact .inr (.inr ⟨_, List.mem_append_right _ List.mem_cons_self, mem⟩)
  · rename_i pos polarity cond statement
    obtain same | h := List.mem_cons.1 h
    · cases same
      exact .inr (.inl List.mem_cons_self)
    · cases List.mem_singleton.1 h
      exact .inr (.inl (List.mem_cons_of_mem _ List.mem_cons_self))
  · rename_i _ notString notShell _ _ _
    have plain : node.surface = node.constituents := by
      unfold surface
      split
      · exact (notString _ _ rfl).elim
      · exact (notShell _ _ rfl).elim
      · rfl
    exact .inr (.inl (plain ▸ mem_of_placed h))

theorem sizeOf_of_part {node : Node} {standing : Standing} {part : Standing × Node}
    (h : part ∈ node.placedParts standing) : sizeOf part.2 < sizeOf node := by
  obtain ⟨-, h⟩ | h | ⟨clause, mem, h⟩ := part_cases h
  · exact sizeOf_of_constituent h
  · exact sizeOf_of_constituent (node.surface_subset h)
  · exact Nat.lt_trans (sizeOf_of_constituent (clause.surface_subset h))
      (sizeOf_of_constituent (node.surface_subset mem))

end Node

namespace Occurrence

theorem node_into (occurrence : Occurrence) (part : Standing × Node) : (occurrence.into part).node = part.2 := by
  unfold into
  split <;> rfl

theorem mem_order_iff {outer inner : Occurrence} : inner ∈ outer.order ↔ inner ∈ outer.parts := by
  simp only [order, parts, List.mem_map, Node.mem_order_iff]

theorem sizeOf_of_order {outer inner : Occurrence} (h : inner ∈ outer.order) :
    sizeOf inner.node < sizeOf outer.node := by
  obtain ⟨part, mem, rfl⟩ := List.mem_map.1 h
  rw [node_into]
  exact Node.sizeOf_of_part (Node.mem_order_iff.1 mem)

/-- The visits to a node and to all that stands in it, if nothing stops them but that a node has no counterpart. -/
def visits (occurrence : Occurrence) : List Occurrence :=
  occurrence :: if occurrence.isUnsupported then [] else occurrence.order.attach.flatMap fun part => visits part.1
termination_by sizeOf occurrence.node
decreasing_by exact sizeOf_of_order part.2

theorem visits_of_supported {occurrence : Occurrence} (h : occurrence.isUnsupported = false) :
    occurrence.visits = occurrence :: occurrence.order.flatMap visits := by
  rw [visits]
  simp [h]

theorem visits_of_unsupported {occurrence : Occurrence} (h : occurrence.isUnsupported = true) :
    occurrence.visits = [occurrence] := by
  rw [visits, if_pos h]

theorem mem_visits_iff {outer inner : Occurrence} : inner ∈ outer.visits ↔
    inner = outer ∨ outer.isUnsupported = false ∧ ∃ part ∈ outer.parts, inner ∈ part.visits := by
  cases h : outer.isUnsupported with
  | true => simp [visits_of_unsupported h]
  | false => simp [visits_of_supported h, mem_order_iff]

theorem mem_visits (occurrence : Occurrence) : occurrence ∈ occurrence.visits :=
  mem_visits_iff.2 (.inl rfl)

theorem stands_of_visited {body : List Node} {outer inner : Occurrence} (stands : Stands body outer)
    (visited : inner ∈ outer.visits) : Stands body inner := by
  obtain rfl | ⟨-, part, mem, visited⟩ := mem_visits_iff.1 visited
  · exact stands
  · exact stands_of_visited (.part stands mem) visited
termination_by sizeOf outer.node
decreasing_by exact sizeOf_of_order (mem_order_iff.2 mem)

/-- The parts of what is visited and has a counterpart are visited too. -/
theorem visited_of_part {whole outer inner : Occurrence} (visited : outer ∈ whole.visits)
    (supported : outer.isUnsupported = false) (mem : inner ∈ outer.parts) : inner ∈ whole.visits := by
  obtain rfl | ⟨sound, part, among, visited⟩ := mem_visits_iff.1 visited
  · exact mem_visits_iff.2 (.inr ⟨supported, inner, mem, mem_visits inner⟩)
  · exact mem_visits_iff.2 (.inr ⟨sound, part, among, visited_of_part visited supported mem⟩)
termination_by sizeOf whole.node
decreasing_by exact sizeOf_of_order (mem_order_iff.2 among)

end Occurrence

namespace Lowering

open Occurrence

/-- The visits to what stands in a body. -/
def bodyVisits (body : List Node) : List Occurrence :=
  body.flatMap fun node => (ofStatement node).visits

theorem stands_of_visited {body : List Node} {occurrence : Occurrence} (visited : occurrence ∈ bodyVisits body) :
    Stands body occurrence := by
  obtain ⟨node, mem, visited⟩ := List.mem_flatMap.1 visited
  exact Occurrence.stands_of_visited (.member mem) visited

theorem visited_of_part {body : List Node} {outer inner : Occurrence} (visited : outer ∈ bodyVisits body)
    (supported : outer.isUnsupported = false) (mem : inner ∈ outer.parts) : inner ∈ bodyVisits body := by
  obtain ⟨node, among, visited⟩ := List.mem_flatMap.1 visited
  exact List.mem_flatMap.2 ⟨node, among, Occurrence.visited_of_part visited supported mem⟩

end Lowering

end Formulary
