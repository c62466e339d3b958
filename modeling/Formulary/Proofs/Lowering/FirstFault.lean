import Formulary.Proofs.Grammar.LaidTree
import Formulary.Proofs.Lowering.Faults

/-!
The fault that is reported, and the lines of all others. Lowering reports the first node without a counterpart that it
visits. The lines in the tree of a recipe are in order, so that one has the smallest line, unless two parts that are
visited in another order than that of the source both hold such a node.
-/

namespace Formulary

/-- The lines of a body are in order. -/
structure LaidBody (body : List Node) : Prop where
  laid : ∀ member ∈ body, member.AllLaid
  ordered : body.Pairwise Node.Precedes

namespace Occurrence

/-- Nothing that is visited in it lacks a counterpart. -/
def Clean (occurrence : Occurrence) : Prop :=
  ∀ inner ∈ occurrence.visits, inner.isUnsupported = false

instance (occurrence : Occurrence) : Decidable occurrence.Clean :=
  inferInstanceAs (Decidable (∀ inner ∈ occurrence.visits, inner.isUnsupported = false))

/-- Parts that are visited in another order than that of the source do not both hold a fault, nor do pairs and the
arguments that are moved before them. The faults in the code of a string are on its line. -/
structure Orderly (occurrence : Occurrence) : Prop where
  code : ∀ part ∈ occurrence.parts, part.standing = .embedded → ∀ inner ∈ part.visits, inner.isUnsupported = true →
    inner.node.line = occurrence.node.line
  moved : (∀ part ∈ occurrence.parts, part.node.isSpread = true → part.Clean) ∨
    ∀ part ∈ occurrence.parts, part.node.isBareHash = true → part.Clean
  swapped : (∀ part ∈ (occurrence.node.swapped occurrence.standing).1, (occurrence.into part).Clean) ∨
    ∀ part ∈ (occurrence.node.swapped occurrence.standing).2, (occurrence.into part).Clean

instance (occurrence : Occurrence) : Decidable occurrence.Orderly :=
  decidable_of_iff (_ ∧ _ ∧ _) ⟨fun h => ⟨h.1, h.2.1, h.2.2⟩, fun h => ⟨h.code, h.moved, h.swapped⟩⟩

end Occurrence

namespace Node

variable {node held : Node} {standing : Standing} {part : Standing × Node}

theorem covers_of_part (h : part ∈ node.placedParts standing) (uncoded : part.1 ≠ .embedded) : node.Covers part.2 := by
  obtain ⟨coded, -⟩ | h | ⟨clause, mem, h⟩ := part_cases h
  · exact (uncoded coded).elim
  · exact .inner .self h
  · exact .inner (.inner .self mem) h

theorem holds_of_part (h : part ∈ node.placedParts standing) : node.Holds part.2 := by
  by_cases coded : part.1 = .embedded
  · obtain ⟨-, h⟩ | h | ⟨clause, mem, h⟩ := part_cases h
    · exact .inner .self h
    · exact Covers.holds (.inner .self h)
    · exact Covers.holds (.inner (.inner .self mem) h)
  · exact (covers_of_part h coded).holds

/-- The parts of a node are in order as what it is made of is, but for the code of a string. -/
theorem pairwise_parts (laid : node.AllLaid) (standing : Standing) :
    (∀ part ∈ node.placedParts standing, part.1 = .embedded) ∨
      ((node.placedParts standing).map Prod.snd).Pairwise Before := by
  have ordered := (laid node .self).ordered
  have placed (place : Standing) (nodes : List Node) : (nodes.map fun node => (place, node)).map Prod.snd = nodes := by
    rw [List.map_map]
    exact List.map_id _
  cases node with
  | string | shell => exact .inl (List.forall_mem_map.2 fun _ _ => rfl)
  | array => exact .inr .nil
  | branch pos head cond body orelse =>
    right
    obtain ⟨front, -, apart⟩ := List.pairwise_append.1 ordered
    rw [placedParts, List.map_cons, List.map_append, placed, placed, ← List.cons_append, List.pairwise_append]
    refine ⟨front, ?_, fun early mem held among => ?_⟩
    · unfold furtherStatements
      split
      · exact (laid _ (.inner .self (List.mem_append_right _ List.mem_cons_self))).ordered
      · split
        · exact List.pairwise_singleton _ _
        · exact .nil
      · exact .nil
    · obtain rfl | ⟨pos, members, rfl, among⟩ := further_cases among
      · exact apart early mem held List.mem_cons_self
      · exact (apart early mem _ List.mem_cons_self).of_covers rfl (.inner .self among)
  | branchModifier => exact .inr ordered
  | paren => exact .inr ((congrArg (List.Pairwise Before) (placed standing.inParens _)).mpr ordered)
  | _ => exact .inr ((congrArg (List.Pairwise Before) (placed .operand _)).mpr ordered)

end Node

namespace Occurrence

variable {outer inner first second : Occurrence}

theorem standing_into (occurrence : Occurrence) (part : Standing × Node) :
    (occurrence.into part).standing = part.1 := by
  unfold into
  split <;> rfl

theorem holds_of_part (h : inner ∈ outer.parts) : outer.node.Holds inner.node := by
  obtain ⟨part, mem, rfl⟩ := List.mem_map.1 h
  rw [node_into]
  exact Node.holds_of_part mem

theorem covers_of_part (h : inner ∈ outer.parts) (uncoded : inner.standing ≠ .embedded) :
    outer.node.Covers inner.node := by
  obtain ⟨part, mem, rfl⟩ := List.mem_map.1 h
  rw [standing_into] at uncoded
  rw [node_into]
  exact Node.covers_of_part mem uncoded

/-- In all that is visited the swapped parts do not both hold a fault. -/
def AllOrderly (occurrence : Occurrence) : Prop :=
  ∀ visit ∈ occurrence.visits, visit.isUnsupported = false → visit.Orderly

theorem AllOrderly.of_part (orderly : outer.AllOrderly) (supported : outer.isUnsupported = false)
    (mem : inner ∈ outer.parts) : inner.AllOrderly :=
  fun visit visited => orderly visit (mem_visits_iff.2 (.inr ⟨supported, inner, mem, visited⟩))

/-- A fault is on a line of the node, and not only on one of the code in its strings. -/
theorem exists_covered {outer inner : Occurrence} (orderly : outer.AllOrderly) (visited : inner ∈ outer.visits)
    (unsupported : inner.isUnsupported = true) : ∃ held, outer.node.Covers held ∧ held.line = inner.node.line := by
  obtain rfl | ⟨supported, part, mem, visited⟩ := mem_visits_iff.1 visited
  · exact ⟨_, .self, rfl⟩
  · by_cases coded : part.standing = .embedded
    · have here := (orderly outer (mem_visits outer) supported).code part mem coded inner visited unsupported
      exact ⟨_, .self, here.symm⟩
    · obtain ⟨held, covers, same⟩ := exists_covered (orderly.of_part supported mem) visited unsupported
      exact ⟨held, (covers_of_part mem coded).trans covers, same⟩
termination_by sizeOf outer.node
decreasing_by exact sizeOf_of_order (mem_order_iff.2 mem)

/-- If both lack a counterpart, the line of the second is not above that of the first. -/
def Climb (first second : Occurrence) : Prop :=
  first.isUnsupported = true → second.isUnsupported = true → first.node.line ≤ second.node.line

/-- The faults in one part do not come behind those in another. -/
def Sequential (first second : Occurrence) : Prop :=
  ∀ inner ∈ first.visits, ∀ other ∈ second.visits, Climb inner other

namespace Sequential

theorem of_precedes (orderly : first.AllOrderly) (orderly' : second.AllOrderly)
    (h : first.node.Precedes second.node) : Sequential first second := by
  intro inner mem other among unsupported unsupported'
  obtain ⟨held, covers, same⟩ := exists_covered orderly mem unsupported
  obtain ⟨held', covers', same'⟩ := exists_covered orderly' among unsupported'
  rw [← same, ← same']
  exact h held covers held' covers'

theorem of_clean (h : first.Clean ∨ second.Clean) : Sequential first second := by
  intro inner mem other among unsupported unsupported'
  obtain clean | clean := h
  · rw [clean inner mem] at unsupported
    contradiction
  · rw [clean other among] at unsupported'
    contradiction

end Sequential

/-- The faults in the parts of a node are in the order of the source. -/
theorem pairwise_parts (laid : outer.node.AllLaid) (orderly : outer.AllOrderly)
    (supported : outer.isUnsupported = false) : outer.parts.Pairwise Sequential := by
  have here := orderly outer (mem_visits outer) supported
  obtain coded | ordered := Node.pairwise_parts laid outer.standing
  · have coded : ∀ part ∈ outer.parts, part.standing = .embedded :=
      List.forall_mem_map.2 fun part mem => (standing_into outer part).trans (coded part mem)
    refine List.pairwise_iff_forall_sublist.2 fun {first second} both => ?_
    have mem := both.subset List.mem_cons_self
    have mem' := both.subset (List.mem_cons_of_mem _ List.mem_cons_self)
    intro inner visited other visited' unsupported unsupported'
    have line := here.code first mem (coded first mem) inner visited unsupported
    have line' := here.code second mem' (coded second mem') other visited' unsupported'
    exact Nat.le_of_eq (line.trans line'.symm)
  · refine List.pairwise_map.2 ((List.pairwise_map.1 ordered).imp_of_mem fun {first second} mem mem' before => ?_)
    have part : outer.into first ∈ outer.parts := List.mem_map_of_mem mem
    have part' : outer.into second ∈ outer.parts := List.mem_map_of_mem mem'
    rw [← node_into outer first, ← node_into outer second] at before
    obtain precedes | ⟨spread, hash⟩ := before
    · exact .of_precedes (orderly.of_part supported part) (orderly.of_part supported part') precedes
    · exact .of_clean (here.moved.imp (· _ part spread) (· _ part' hash))

/-- The parts of a node are visited in an order in which the faults in them climb. -/
theorem pairwise_order (laid : outer.node.AllLaid) (orderly : outer.AllOrderly)
    (supported : outer.isUnsupported = false) : outer.order.Pairwise Sequential := by
  have ordered := pairwise_parts laid orderly supported
  have swapped := (orderly outer (mem_visits outer) supported).swapped
  unfold parts at ordered
  unfold order
  obtain same | ⟨visited, source⟩ := outer.node.order_cases outer.standing
  · rwa [same]
  · rw [source, List.map_append, List.pairwise_append] at ordered
    rw [visited, List.map_append, List.pairwise_append]
    refine ⟨ordered.2.1, ordered.1, fun early mem late among => .of_clean ?_⟩
    exact swapped.imp (fun clean => List.forall_mem_map.2 clean early mem)
      fun clean => List.forall_mem_map.2 clean late among

theorem pairwise_visits (occurrence : Occurrence) (laid : occurrence.node.AllLaid) (orderly : occurrence.AllOrderly) :
    occurrence.visits.Pairwise Climb := by
  cases h : occurrence.isUnsupported with
  | true =>
    rw [visits_of_unsupported h]
    exact List.pairwise_singleton _ _
  | false =>
    have each : ∀ part ∈ occurrence.order, part.visits.Pairwise Climb := fun part mem =>
      pairwise_visits part (laid.of_holds (holds_of_part (mem_order_iff.1 mem)))
        (orderly.of_part h (mem_order_iff.1 mem))
    rw [visits_of_supported h, List.pairwise_cons, List.pairwise_flatMap]
    refine ⟨?_, each, pairwise_order laid orderly h⟩
    intro other _ unsupported
    rw [h] at unsupported
    contradiction
termination_by sizeOf occurrence.node
decreasing_by exact sizeOf_of_order mem

end Occurrence

/-! The reported fault -/

namespace Lowering

open Occurrence

theorem line_le_of_find? {items : List Occurrence} {first other : Occurrence} (ordered : items.Pairwise Climb)
    (found : items.find? isUnsupported = some first) (mem : other ∈ items) (h : other.isUnsupported = true) :
    first.node.line ≤ other.node.line := by
  obtain ⟨holds, front, back, rfl, earlier⟩ := List.find?_eq_some_iff_append.1 found
  obtain among | among := List.mem_append.1 mem
  · have none := earlier other among
    simp [h] at none
  · obtain rfl | among := List.mem_cons.1 among
    · exact Nat.le_refl _
    · exact (List.pairwise_cons.1 (List.pairwise_append.1 ordered).2.1).1 other among holds h

variable {body : List Node} {occurrence : Occurrence}

theorem laid_of_stands (laid : LaidBody body) (stands : Stands body occurrence) : occurrence.node.AllLaid := by
  induction stands with
  | member mem => exact laid.laid _ mem
  | part _ mem ih => exact ih.of_holds (holds_of_part mem)

/-- What stands in a body lies below the innermost statement around it. -/
theorem statement_line_le (laid : LaidBody body) (stands : Stands body occurrence) :
    occurrence.statement.line ≤ occurrence.node.line := by
  induction stands with
  | member mem => exact Nat.le_refl _
  | @part outer inner outside mem ih =>
    have deeper := (laid_of_stands laid outside).line_le (holds_of_part mem)
    obtain ⟨⟨place, held⟩, listed, rfl⟩ := List.mem_map.1 mem
    cases place with
    | statement => exact Nat.le_refl _
    | _ => exact Nat.le_trans ih deeper

/-- Whatever lacks a counterpart stands in a node that is visited, and that lacks one too. -/
theorem exists_visited_unsupported (laid : LaidBody body) (stands : Stands body occurrence)
    (unsupported : occurrence.isUnsupported = true) :
    ∃ visited ∈ bodyVisits body, visited.isUnsupported = true ∧ visited.node.line ≤ occurrence.node.line := by
  suffices occurrence ∈ bodyVisits body ∨ ∃ visited ∈ bodyVisits body, visited.isUnsupported = true ∧
      visited.node.line ≤ occurrence.node.line by
    obtain visited | there := this
    · exact ⟨occurrence, visited, unsupported, Nat.le_refl _⟩
    · exact there
  clear unsupported
  induction stands with
  | member mem => exact .inl (List.mem_flatMap.2 ⟨_, mem, mem_visits _⟩)
  | @part outer inner outside mem ih =>
    have deeper := (laid_of_stands laid outside).line_le (holds_of_part mem)
    obtain visited | ⟨visited, mem', unsupported, below⟩ := ih
    · cases h : outer.isUnsupported with
      | true => exact .inr ⟨outer, visited, h, deeper⟩
      | false => exact .inl (visited_of_part visited h mem)
    · exact .inr ⟨visited, mem', unsupported, Nat.le_trans below deeper⟩

theorem line_fault (laid : LaidBody body) (stands : Stands body occurrence) :
    occurrence.fault.line = occurrence.node.line := by
  have below := statement_line_le laid stands
  unfold Occurrence.fault Unsupported.ofNode
  split
  · rename_i unplaced
    rw [unplaced] at below ⊢
    exact Nat.le_zero.1 below
  · rfl

/-- In a body whose lines are in order, and in which no two parts that are visited in another order than that of the
source both hold what has no counterpart, the reported fault has the smallest line of all. -/
theorem fault_earliest {fault : Unsupported} (laid : LaidBody body)
    (orderly : ∀ visit ∈ bodyVisits body, visit.isUnsupported = false → visit.Orderly)
    (h : lowerInstall body = .error fault) (stands : Stands body occurrence)
    (unsupported : occurrence.isUnsupported = true) : fault.line ≤ occurrence.node.line := by
  obtain ⟨first, found, rfl⟩ := lowerInstall_eq_error_iff.1 h
  obtain ⟨visited, mem, lacking, below⟩ := exists_visited_unsupported laid stands unsupported
  have each {member : Node} (mem : member ∈ body) : (ofStatement member).AllOrderly :=
    fun visit visited => orderly visit (List.mem_flatMap.2 ⟨member, mem, visited⟩)
  have ordered : (bodyVisits body).Pairwise Climb := by
    rw [bodyVisits, List.pairwise_flatMap]
    refine ⟨fun member mem => pairwise_visits _ (laid.laid member mem) (each mem), ?_⟩
    exact laid.ordered.imp_of_mem fun mem mem' precedes => Sequential.of_precedes (each mem) (each mem') precedes
  rw [line_fault laid (stands_of_visited (List.mem_of_find?_eq_some found))]
  exact Nat.le_trans (line_le_of_find? ordered found mem lacking) below

end Lowering

/-- The statements that are lowered for a recipe: its install method's, or all at top level if they are a body alone. -/
inductive InstallBody (program : Node) : List Node → Prop
  | topLevel : InstallBody program (Recipe.topLevel program)
  | method {formula : FormulaClass} {body : List Node} (found : Recipe.findFormulaClass program = some formula)
      (install : Recipe.findInstallBody formula = some body) : InstallBody program body

/-- The members of a body that a node is made of are in order. -/
theorem LaidBody.of_owner {owner : Node} {body : List Node} (laid : owner.AllLaid) (same : owner.surface = body)
    (strict : owner.listsArguments = false) : LaidBody body := by
  subst same
  exact ⟨fun member mem => laid.of_holds (Node.Covers.holds (.inner .self mem)), (laid owner .self).strict strict⟩

theorem LaidBody.topLevel {program : Node} (laid : program.AllLaid) : LaidBody (Recipe.topLevel program) := by
  cases program with
  | program pos body => exact .of_owner laid rfl rfl
  | _ => exact ⟨List.forall_mem_nil _, .nil⟩

theorem InstallBody.laid {program : Node} {body : List Node} (h : InstallBody program body) (laid : program.AllLaid) :
    LaidBody body := by
  cases h with
  | topLevel => exact .topLevel laid
  | method found install =>
    obtain ⟨pos, superclass, pos', params, among, member⟩ := Recipe.exists_definitions found install
    have inClass := (LaidBody.topLevel laid).laid _ among
    have inMethod := inClass.of_holds (.inner .self (List.mem_append_right _ member))
    exact .of_owner inMethod rfl rfl

namespace Lowering

open Occurrence

/-- The fault is that of the first visit to what has no counterpart. It has the smallest line of all if no two parts
that are visited in another order than that of the source both hold such a node. -/
theorem lowerInstall_reports_first {text : List Char} {program : Node} {body : List Node} {fault : Unsupported}
    (read : parseRecipe text = .ok program) (install : InstallBody program body)
    (h : lowerInstall body = .error fault) :
    (∃ first, (bodyVisits body).find? isUnsupported = some first ∧ first.fault = fault) ∧
      ((∀ visit ∈ bodyVisits body, visit.isUnsupported = false → visit.Orderly) →
        ∀ occurrence, Stands body occurrence → occurrence.isUnsupported = true →
          fault.line ≤ occurrence.node.line) :=
  ⟨lowerInstall_eq_error_iff.1 h, fun orderly _ stands lacking =>
    fault_earliest (install.laid (laid_of_parseRecipe read)) orderly h stands lacking⟩

/-- Two blocks, the first in a branch. -/
theorem lowerInstall_reports_first_block :
    let text := "if a\n  b do\n  end\nend\nc do\nend"
    ∃ program fault, parseRecipe text.toList = .ok program ∧
      lowerInstall (Recipe.topLevel program) = .error fault ∧ fault.line = 2 ∧
      ∀ occurrence, Stands (Recipe.topLevel program) occurrence → occurrence.isUnsupported = true →
        fault.line ≤ occurrence.node.line := by
  intro text
  have found : ((parseRecipe text.toList).toOption.map fun program =>
      (((bodyVisits (Recipe.topLevel program)).find? isUnsupported).map fun first => first.fault.line,
        decide (∀ visit ∈ bodyVisits (Recipe.topLevel program), visit.isUnsupported = false → visit.Orderly))) =
      some (some 2, true) := by
    decide +kernel
  obtain ⟨program, read, values⟩ := Option.map_eq_some_iff.1 found
  obtain ⟨reported, orderly⟩ := Prod.mk.inj values
  obtain ⟨first, visited, line⟩ := Option.map_eq_some_iff.1 reported
  have read := Result.toOption_eq_some_iff.1 read
  have failed := lowerInstall_eq_error_iff.2 ⟨first, visited, rfl⟩
  exact ⟨program, first.fault, read, failed, line,
    (lowerInstall_reports_first read .topLevel failed).2 (of_decide_eq_true orderly)⟩

/-- An else part is visited before the branch above it. -/
theorem exists_fault_above_reported :
    let text := "if a\n  foo do\n  end\nelse\n  bar do\n  end\nend"
    ∃ program fault occurrence, parseRecipe text.toList = .ok program ∧
      lowerInstall (Recipe.topLevel program) = .error fault ∧ Stands (Recipe.topLevel program) occurrence ∧
      occurrence.isUnsupported = true ∧ occurrence.node.line = 2 ∧ fault.line = 5 := by
  intro text
  have found : ((parseRecipe text.toList).toOption.map fun program =>
      (((bodyVisits (Recipe.topLevel program)).find? isUnsupported).map fun first => first.fault.line,
        ((bodyVisits (Recipe.topLevel program)).find? fun visit =>
          visit.isUnsupported && visit.node.line == 2).isSome)) = some (some 5, true) := by
    decide +kernel
  obtain ⟨program, read, values⟩ := Option.map_eq_some_iff.1 found
  obtain ⟨reported, above⟩ := Prod.mk.inj values
  obtain ⟨first, visited, line⟩ := Option.map_eq_some_iff.1 reported
  obtain ⟨occurrence, among⟩ := Option.isSome_iff_exists.1 above
  have holds : (occurrence.isUnsupported && occurrence.node.line == 2) = true :=
    List.find?_some (p := fun visit : Occurrence => visit.isUnsupported && visit.node.line == 2) among
  obtain ⟨lacking, here⟩ := Bool.and_eq_true_iff.1 holds
  exact ⟨program, first.fault, occurrence, Result.toOption_eq_some_iff.1 read,
    lowerInstall_eq_error_iff.2 ⟨first, visited, rfl⟩, stands_of_visited (List.mem_of_find?_eq_some among), lacking,
    eq_of_beq here, line⟩

end Lowering

end Formulary
