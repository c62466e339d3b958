import Formulary.Proofs.Lowering.Standing

/-!
How lowering fails. The first visit to a node without a counterpart gives the error, which names the node and the
innermost statement around it.
-/

namespace Formulary

open Result

namespace Occurrence

/-- The fault of a node without a counterpart. -/
def fault (occurrence : Occurrence) : Unsupported :=
  .ofNode (some (.ofNode occurrence.statement)) occurrence.node

/-- How lowering fails, if it does. -/
def failure? (occurrence : Occurrence) : Option Unsupported :=
  let within := some (Enclosing.ofNode occurrence.statement)
  match occurrence.standing, occurrence.node with
  | .statement, node | .grouped, node => error? (Lowering.statement within node)
  | .operand, node => error? (Lowering.expression within node)
  | .embedded, .code pos body => error? (Lowering.embedded within pos body)
  | .embedded, _ => some occurrence.fault

end Occurrence

namespace Lowering

theorem findSome?_cons_eq_or {α β : Type} (f : α → Option β) (first : α) (rest : List α) :
    (first :: rest).findSome? f = (f first).or (rest.findSome? f) := by
  rw [List.findSome?_cons]
  cases f first <;> rfl

theorem findSome?_congr {α β : Type} {f g : α → Option β} {items : List α} (same : ∀ item ∈ items, f item = g item) :
    items.findSome? f = items.findSome? g := by
  induction items with
  | nil => rfl
  | cons item rest ih =>
    obtain ⟨here, behind⟩ := List.forall_mem_cons.1 same
    rw [findSome?_cons_eq_or, findSome?_cons_eq_or, here, ih behind]

variable (statement : Node)

theorem error?_expressions (nodes : List Node) : error? (expressions (some (.ofNode statement)) nodes) =
    nodes.findSome? fun node => (Occurrence.mk statement .operand node).failure? := by
  induction nodes with
  | nil => rfl
  | cons node rest ih =>
    rw [expressions, error?_bind fun _ => error?_map _ _, ih, findSome?_cons_eq_or]
    rfl

theorem error?_parts (pieces : List (Piece Node)) : error? (parts (some (.ofNode statement)) pieces) =
    (pieces.filterMap Piece.code?).findSome? fun code => (Occurrence.mk statement .embedded code).failure? := by
  induction pieces with
  | nil => rfl
  | cons piece rest ih =>
    cases piece with
    | text value =>
      rw [parts]
      split
      · exact ih
      · exact (error?_map _ _).trans ih
    | code pos body =>
      have coded : (Piece.code pos body).code? = some (.code pos body) := rfl
      rw [parts, error?_bind fun _ => error?_map _ _, ih, List.filterMap_cons_some coded, findSome?_cons_eq_or]
      rfl

theorem error?_body (nodes : List Node) :
    error? (body nodes) = nodes.findSome? fun node => (Occurrence.ofStatement node).failure? := by
  induction nodes with
  | nil => rfl
  | cons node rest ih =>
    rw [body, error?_bind fun _ => error?_map _ _, ih, findSome?_cons_eq_or]
    rfl

theorem error?_elseBody (orelse : Option Node) : error? (elseBody orelse) =
    (Node.furtherStatements orelse).findSome? fun node => (Occurrence.ofStatement node).failure? := by
  unfold Node.furtherStatements
  split
  · exact (error?_map _ _).trans (error?_body _)
  · rename_i node clauseless
    rw [elseBody_some clauseless]
    split
    · rw [error?_map, findSome?_cons_eq_or, List.findSome?_nil, Option.or_none]
      rfl
    · rfl
  · rfl

/-- A bare name is no fault, as code or as a call. -/
theorem error?_embedded (within : Option Enclosing) (pos : Position) (inner : Node) :
    error? (embedded within pos [inner]) = error? (expression within inner) := by
  rw [embedded]
  split
  · rename_i bare
    obtain ⟨place, rfl⟩ := Node.eq_call_of_bareName? bare
    rfl
  · rfl

end Lowering

namespace Occurrence

open Lowering

variable {statement node : Node}

/-- In the place of a statement an expression is lowered as an operand is. -/
theorem failure?_of_evaluated {standing : Standing} (placed : standing = .statement ∨ standing = .grouped)
    (evaluated : evaluated node = true) :
    (mk statement standing node).failure? = (mk statement .operand node).failure? := by
  have lowered : error? (Lowering.statement (some (.ofNode statement)) node) =
      error? (expression (some (.ofNode statement)) node) := by
    rw [statement_eq_of_evaluated evaluated, error?_map]
  obtain rfl | rfl := placed <;> exact lowered

theorem isUnsupported_of_evaluated {standing : Standing} (placed : standing = .statement ∨ standing = .grouped)
    (evaluated : evaluated node = true) : node.isUnsupported standing = node.isUnsupported .operand := by
  obtain rfl | rfl := placed <;> cases node <;> first | rfl | cases evaluated

theorem evaluated_of_unsupported {standing : Standing} (placed : standing = .statement ∨ standing = .grouped)
    (unsupported : node.isUnsupported standing = true) : evaluated node = true := by
  unfold evaluated
  split
  · obtain rfl | rfl := placed <;> cases unsupported
  · obtain rfl | rfl := placed <;> cases unsupported
  · obtain rfl | rfl := placed <;> cases unsupported
  · obtain rfl | rfl := placed <;> cases unsupported
  · rfl

theorem failure?_of_unsupported_operand (unsupported : node.isUnsupported .operand = true) :
    (mk statement .operand node).failure? = some (mk statement .operand node).fault := by
  cases node with
  | call pos name receiver args attached parens =>
    cases attached with
    | none => cases unsupported
    | some attached => cases receiver <;> rfl
  | index pos base args =>
    rcases args with - | ⟨subscript, - | -⟩
    case cons.nil => cases unsupported
    all_goals rfl
  | splat pos value double =>
    cases double with
    | false => cases unsupported
    | true => rfl
  | paren pos body =>
    rcases body with - | ⟨inner, - | -⟩
    case cons.nil => cases unsupported
    all_goals rfl
  | string | symbol | int | array | reference | binary | unary | assign => cases unsupported
  | _ => rfl

theorem failure?_of_unsupported_statement {standing : Standing} (placed : standing = .statement ∨ standing = .grouped)
    (unsupported : node.isUnsupported standing = true) :
    (mk statement standing node).failure? = some (mk statement standing node).fault := by
  have evaluated := evaluated_of_unsupported placed unsupported
  rw [failure?_of_evaluated placed evaluated]
  rw [isUnsupported_of_evaluated placed evaluated] at unsupported
  exact failure?_of_unsupported_operand unsupported

/-- What has no counterpart fails by itself. -/
theorem failure?_of_unsupported {occurrence : Occurrence} (unsupported : occurrence.isUnsupported = true) :
    occurrence.failure? = some occurrence.fault := by
  obtain ⟨statement, standing, node⟩ := occurrence
  cases standing with
  | operand => exact failure?_of_unsupported_operand unsupported
  | embedded =>
    cases node with
    | code pos body =>
      rcases body with - | ⟨inner, - | -⟩
      case cons.nil => cases unsupported
      all_goals rfl
    | _ => rfl
  | statement => exact failure?_of_unsupported_statement (.inl rfl) unsupported
  | grouped => exact failure?_of_unsupported_statement (.inr rfl) unsupported

theorem failure?_operand (statement node : Node) :
    (mk statement .operand node).failure? = error? (expression (some (.ofNode statement)) node) := rfl

theorem failure?_placed {standing : Standing} (placed : standing = .statement ∨ standing = .grouped)
    (statement node : Node) :
    (mk statement standing node).failure? = error? (Lowering.statement (some (.ofNode statement)) node) := by
  obtain rfl | rfl := placed <;> rfl

theorem findSome?_operands (occurrence : Occurrence) (nodes : List Node) :
    ((nodes.map (Standing.operand, ·)).map occurrence.into).findSome? failure? =
      error? (expressions (some (.ofNode occurrence.statement)) nodes) := by
  rw [error?_expressions, List.map_map, List.findSome?_map]
  rfl

theorem error?_expressions_single (within : Option Enclosing) (node : Node) :
    error? (expressions within [node]) = error? (expression within node) := by
  rw [expressions, expressions]
  cases expression within node <;> rfl

theorem error?_expressions_pair (within : Option Enclosing) (first second : Node) :
    error? (expressions within [first, second]) =
      (error? (expression within first)).or (error? (expression within second)) := by
  rw [expressions, expressions, expressions]
  cases expression within first <;> cases expression within second <;> rfl

theorem failure?_of_supported_operand (supported : node.isUnsupported .operand = false) :
    (mk statement .operand node).failure? = (mk statement .operand node).order.findSome? failure? := by
  cases node with
  | string pos pieces =>
    rw [failure?_operand, expression, error?_map, error?_parts]
    simp [order, Node.order, Node.placedParts, into, List.findSome?_map, Function.comp_def]
  | symbol | int | array | reference => rfl
  | call pos name receiver args attached parens =>
    obtain rfl : attached = none := by simpa [Node.isUnsupported] using supported
    refine Eq.trans ?_ (findSome?_operands _ (args ++ receiver.toList)).symm
    cases receiver with
    | none =>
      rw [failure?_operand, expression, error?_map, Option.toList, List.append_nil]
    | some receiver =>
      rw [failure?_operand, expression, error?_bind fun _ => error?_map _ _, error?_expressions, error?_expressions,
        List.findSome?_append]
      simp [failure?_operand]
  | index pos base args =>
    obtain ⟨subscript, rfl⟩ := Node.eq_singleton supported
    rw [failure?_operand, expression, error?_bind fun _ => error?_map _ _, ← error?_expressions_pair]
    exact (findSome?_operands (mk statement .operand _) [base, subscript]).symm
  | binary pos op left right | assign pos left right =>
    rw [failure?_operand, expression, error?_bind fun _ => error?_map _ _, ← error?_expressions_pair]
    exact (findSome?_operands (mk statement .operand _) [left, right]).symm
  | unary pos op inner =>
    rw [failure?_operand, expression, error?_map, ← error?_expressions_single]
    exact (findSome?_operands (mk statement .operand _) [inner]).symm
  | splat pos inner double =>
    cases double with
    | false =>
      rw [failure?_operand, expression, error?_map, ← error?_expressions_single]
      exact (findSome?_operands (mk statement .operand _) [inner]).symm
    | true => cases supported
  | paren pos body =>
    obtain ⟨inner, rfl⟩ := Node.eq_singleton supported
    rw [failure?_operand, expression, ← error?_expressions_single]
    exact (findSome?_operands (mk statement .operand _) [inner]).symm
  | _ => cases supported

theorem order_of_evaluated {standing : Standing} (placed : standing = .statement ∨ standing = .grouped)
    (evaluated : evaluated node = true) (supported : node.isUnsupported standing = false) :
    (mk statement standing node).order = (mk statement .operand node).order := by
  have same : node.order standing = node.order .operand := by
    obtain rfl | rfl := placed
    all_goals
      cases node with
      | call pos name receiver args attached parens =>
        obtain rfl : attached = none := by simpa [Node.isUnsupported] using supported
        cases args with
        | nil => simp [Node.order]
        | cons => cases evaluated
      | paren pos body =>
        obtain ⟨inner, rfl⟩ := Node.eq_singleton supported
        cases evaluated
      | loop => cases supported
      | _ => rfl
  exact congrArg (List.map _) same

theorem failure?_of_supported_statement {standing : Standing} (placed : standing = .statement ∨ standing = .grouped)
    (supported : node.isUnsupported standing = false) :
    (mk statement standing node).failure? = (mk statement standing node).order.findSome? failure? := by
  by_cases evaluated : evaluated node = true
  · rw [failure?_of_evaluated placed evaluated, order_of_evaluated placed evaluated supported]
    rw [isUnsupported_of_evaluated placed evaluated] at supported
    exact failure?_of_supported_operand supported
  · rw [failure?_placed placed]
    unfold Lowering.evaluated at evaluated
    split at evaluated
    · rename_i pos name receiver first rest parens
      have ordered : (Node.call pos name receiver (first :: rest) none parens).order standing =
          (receiver.toList ++ first :: rest).map (.operand, ·) := by
        obtain rfl | rfl := placed <;> rfl
      rw [order, ordered, findSome?_operands, Lowering.statement, error?_bind fun _ => error?_map _ _]
      cases receiver with
      | none => rfl
      | some receiver =>
        have alone : error? ((some receiver).mapM (expression (some (.ofNode statement)))) =
            error? (expression (some (.ofNode statement)) receiver) := error?_map _ some
        rw [alone]
        exact (error?_bind fun _ => error?_map _ _).symm
    · rename_i pos polarity cond inner
      rw [Lowering.statement, error?_bind fun _ => error?_map _ _]
      simp [order, Node.order, into, findSome?_cons_eq_or, failure?, ofStatement]
    · rename_i pos head cond body orelse
      rw [Lowering.statement, error?_bind fun _ => error?_bind fun _ => error?_map _ _, error?_elseBody, error?_body]
      simp [order, Node.order, into, findSome?_cons_eq_or, failure?_operand, List.findSome?_map, Function.comp_def,
        List.findSome?_append]
    · rename_i pos inner
      rw [Lowering.statement]
      obtain rfl | rfl := placed
      all_goals simp [order, Node.order, Node.placedParts, into, failure?, Standing.inParens]
    · contradiction

/-- What has a counterpart fails as the first of its parts that fails. -/
theorem failure?_of_supported {occurrence : Occurrence} (supported : occurrence.isUnsupported = false) :
    occurrence.failure? = occurrence.order.findSome? failure? := by
  obtain ⟨statement, standing, node⟩ := occurrence
  cases standing with
  | operand => exact failure?_of_supported_operand supported
  | embedded =>
    cases node with
    | code pos body =>
      obtain ⟨inner, rfl⟩ := Node.eq_singleton supported
      refine (error?_embedded _ _ _).trans ?_
      rw [← error?_expressions_single]
      exact (findSome?_operands (mk statement .embedded _) [inner]).symm
    | _ => cases supported
  | statement => exact failure?_of_supported_statement (.inl rfl) supported
  | grouped => exact failure?_of_supported_statement (.inr rfl) supported

/-- How lowering fails is told by the first visit to what has no counterpart. -/
theorem failure?_eq (occurrence : Occurrence) :
    occurrence.failure? = (occurrence.visits.find? isUnsupported).map fault := by
  cases h : occurrence.isUnsupported with
  | true =>
    rw [failure?_of_unsupported h, visits_of_unsupported h, List.find?_cons_of_pos h]
    rfl
  | false =>
    have parts : ∀ inner ∈ occurrence.order, inner.failure? = (inner.visits.find? isUnsupported).map fault :=
      fun inner mem => failure?_eq inner
    rw [failure?_of_supported h, visits_of_supported h, List.find?_cons_of_neg (by simp [h]), List.find?_flatMap,
      List.map_findSome?]
    exact findSome?_congr parts
termination_by sizeOf occurrence.node
decreasing_by exact sizeOf_of_order mem

end Occurrence

namespace Lowering

open Occurrence

theorem lowerInstall_eq_error_iff {body : List Node} {fault : Unsupported} :
    lowerInstall body = .error fault ↔
      ∃ first, (bodyVisits body).find? isUnsupported = some first ∧ first.fault = fault := by
  have first : error? (lowerInstall body) = ((bodyVisits body).find? isUnsupported).map Occurrence.fault := by
    rw [lowerInstall, error?_body, bodyVisits, List.find?_flatMap, List.map_findSome?]
    exact findSome?_congr fun node _ => failure?_eq _
  rw [← error?_eq_some_iff, first, Option.map_eq_some_iff]

theorem line?_ofNode (statement node : Node) :
    (Unsupported.ofNode (some (.ofNode statement)) node).line? = node.line?.or statement.line? := by
  by_cases h : node.line = 0
  · rw [Unsupported.line?, Unsupported.ofNode, if_pos h, Node.line?, if_pos h]
    rfl
  · rw [Unsupported.line?, Unsupported.ofNode, if_neg h, if_neg h, Node.line?, if_neg h]
    rfl

/-- An error names a node that has no counterpart where it stands, outside of arrays, by its kind, and the innermost
statement around that node by its kind and line. It is at the node's line, or at the statement's if the node has
none. -/
theorem lowerInstall_names_construct {body : List Node} {fault : Unsupported} (h : lowerInstall body = .error fault) :
    ∃ occurrence : Occurrence, Stands body occurrence ∧ occurrence.isUnsupported = true ∧
      fault.kind = occurrence.node.kind ∧
      Enclosing.describe fault.within =
        s!"'{occurrence.statement.kind}' statement at line {occurrence.statement.line}" ∧
      fault.line? = occurrence.node.line?.or occurrence.statement.line? := by
  obtain ⟨occurrence, found, rfl⟩ := lowerInstall_eq_error_iff.1 h
  exact ⟨occurrence, stands_of_visited (List.mem_of_find?_eq_some found), List.find?_some found, rfl, rfl,
    line?_ofNode occurrence.statement occurrence.node⟩

/-- Code without a line, in the condition of a further test. -/
theorem lowerInstall_names_construct_unplaced :
    let name (line : Nat) (text : String) : Node := .call ⟨line, 1⟩ text none [] none false
    let further : Node :=
      .branch ⟨3, 1⟩ .further (.string ⟨3, 7⟩ [.text "x", .code ⟨0, 0⟩ []])
        [.array ⟨4, 3⟩ [.jump ⟨4, 4⟩ "next" none]] none
    let body : List Node := [name 1 "a", .branch ⟨2, 1⟩ (.opening .positive) (name 2 "b") [] (some further)]
    let fault : Unsupported := ⟨"string_embexpr", some ⟨"elsif", 3⟩, 3⟩
    lowerInstall body = .error fault ∧
      ∃ occurrence : Occurrence, Stands body occurrence ∧ occurrence.isUnsupported = true ∧
        fault.kind = occurrence.node.kind ∧
        Enclosing.describe fault.within =
          s!"'{occurrence.statement.kind}' statement at line {occurrence.statement.line}" ∧
        fault.line? = occurrence.node.line?.or occurrence.statement.line? := by
  intro name further body fault
  have failed : lowerInstall body = .error fault := by rfl
  exact ⟨failed, lowerInstall_names_construct failed⟩

/-! What stands in a body that is lowered -/

theorem supported_of_visited {body : List Node} {instructions : List Instruction} {occurrence : Occurrence}
    (lowered : lowerInstall body = .ok instructions) (visited : occurrence ∈ bodyVisits body) :
    occurrence.isUnsupported = false := by
  cases h : occurrence.isUnsupported with
  | false => rfl
  | true =>
    obtain ⟨first, found⟩ := Option.isSome_iff_exists.1 (List.find?_isSome.2 ⟨occurrence, visited, h⟩)
    have failed := lowerInstall_eq_error_iff.2 ⟨first, found, rfl⟩
    rw [lowered] at failed
    contradiction

/-- In a body that is lowered every node is visited where it stands, and has a counterpart there. -/
theorem supported_of_stands {body : List Node} {instructions : List Instruction} {occurrence : Occurrence}
    (lowered : lowerInstall body = .ok instructions) (stands : Stands body occurrence) :
    occurrence.isUnsupported = false := by
  suffices occurrence ∈ bodyVisits body from supported_of_visited lowered this
  induction stands with
  | member mem => exact List.mem_flatMap.2 ⟨_, mem, mem_visits _⟩
  | part _ mem ih => exact visited_of_part ih (supported_of_visited lowered ih) mem

end Lowering

end Formulary
