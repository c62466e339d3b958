import Formulary.Proofs.Lowering.Atoms
import Formulary.Recipe

/-!
The lines of a recipe's instructions. Each command, expression, condition and else has a line of its own, indented by
its depth. The only further lines come from quoted symbols and from the variable whose name is a line break.
-/

namespace Formulary.Layout

open Lowering (AllTame)

/-- A text that is not empty and begins with no space. -/
structure Begun (text : String) : Prop where
  filled : text ≠ ""
  unspaced : text.toList.head? ≠ some ' '

section Begun

variable {text : String}

theorem Plain.begun (h : Plain text) : Begun text :=
  ⟨h.filled, h.unspaced⟩

theorem Begun.plain (h : Begun text) (unbroken : lineBreaks text = 0) : Plain text :=
  ⟨h.filled, lineBreaks_eq_zero_iff.1 unbroken, h.unspaced⟩

theorem Begun.append (h : Begun text) (more : String) : Begun (text ++ more) := by
  have filled : text.toList ≠ [] := fun empty => h.filled (String.toList_inj.1 empty)
  refine ⟨fun empty => filled ?_, ?_⟩
  · exact (List.append_eq_nil_iff.1 ((String.toList_append ..).symm.trans (congrArg String.toList empty))).1
  · rw [String.toList_append, List.head?_append_of_ne_nil _ filled]
    exact h.unspaced

theorem begun_operand {rendered : String} (expr : Expression) (h : Begun rendered) : Begun (operand expr rendered) := by
  have paren : Begun ("(" ++ rendered ++ ")") := (Begun.append ⟨by decide, by decide⟩ rendered).append ")"
  unfold operand
  split
  · exact paren
  · exact paren
  · exact h

theorem begun_call {callee : String} (h : Begun callee) (args : List String) : Begun (call callee args) :=
  ((h.append "(").append _).append ")"

theorem begun_looseCall {callee : String} (h : Begun callee) (args : List String) : Begun (looseCall callee args) := by
  unfold looseCall
  split
  · exact h
  · exact begun_call h args

theorem begun_repr (n : Nat) : Begun n.repr := by
  refine ⟨Nat.repr_ne_empty, fun head => ?_⟩
  rw [Nat.toList_repr] at head
  exact absurd (Nat.isDigit_of_mem_toDigits (by decide) (by decide) (List.mem_of_mem_head? head)) (by decide)

theorem begun_toString (value : Int) : Begun (toString value) := by
  rw [Int.toString_eq_repr, Int.repr_eq_if]
  split
  · exact begun_repr _
  · exact Begun.append ⟨by decide, by decide⟩ _

theorem begun_var {name : String} (tame : (Atom.var name).Tame) : Begun name := by
  obtain plain | rfl := tame
  · exact plain.begun
  · exact ⟨by decide, by decide⟩

end Begun

/-- Where all names are tame, an expression's text begins with something else than a space. -/
theorem begun_expression {expr : Expression} (tame : AllTame expr.atoms) : Begun (expression expr) := by
  cases expr with
  | string parts => exact (Begun.append ⟨by decide, by decide⟩ _).append _
  | var name => exact begun_var (tame _ List.mem_cons_self)
  | bareCall name args => exact begun_looseCall (Plain.begun (tame _ List.mem_cons_self)) _
  | methodCall receiver method args =>
    have base := begun_operand receiver (begun_expression tame.of_append.1)
    exact begun_looseCall ((base.append ".").append method) _
  | binary op left right =>
    have first := begun_operand left (begun_expression tame.of_append.1)
    exact (((first.append " ").append op).append " ").append _
  | unary op inner =>
    have sign : Begun op := Plain.begun (tame _ List.mem_cons_self)
    exact (sign.append _).append _
  | array length => exact begun_call ⟨by decide, by decide⟩ _
  | index base subscript =>
    have first := begun_operand base (begun_expression tame.of_append.1)
    exact ((first.append "[").append _).append "]"
  | symbol name => exact Begun.append ⟨by decide, by decide⟩ _
  | int value => exact begun_toString value
  | assign target value => exact ((begun_expression tame.of_append.1).append " = ").append _
  | splat value => exact Begun.append ⟨by decide, by decide⟩ _

theorem begun_header {cond : String} (polarity : Polarity) : Begun (header polarity cond) := by
  have word : Begun polarity.branchWord := by cases polarity <;> exact ⟨by decide, by decide⟩
  exact ((word.append " ").append cond).append ":"

theorem begun_commandText {name : String} {args : List Expression} {receiver : Option Expression}
    (tame : AllTame (Instruction.command name receiver args).atoms) : Begun (commandText name args receiver) := by
  cases receiver with
  | none => exact begun_call (Plain.begun (tame _ List.mem_cons_self)) _
  | some receiver =>
    have base := begun_operand receiver (begun_expression tame.of_append.1)
    exact (base.append ".").append _

mutual

theorem begun_of_mem_rows {instruction : Instruction} (tame : AllTame instruction.atoms) (depth : Nat) :
    ∀ row ∈ (outline instruction).rows depth, Begun row.text := by
  cases instruction with
  | command name receiver args =>
    intro row mem
    cases List.mem_singleton.1 mem
    exact begun_commandText tame
  | conditional polarity cond thenBranch elseBranch =>
    obtain ⟨first, last⟩ := tame.of_append
    intro row mem
    obtain mem | mem := List.mem_append.1 mem
    · obtain rfl | mem := List.mem_cons.1 mem
      · exact begun_header polarity
      · exact begun_of_mem_rowsOf first.of_append.2 (depth + 1) row mem
    · exact begun_of_mem_elseRows last depth row mem
  | expression expr =>
    intro row mem
    cases List.mem_singleton.1 mem
    exact begun_expression tame

theorem begun_of_mem_rowsOf {list : List Instruction} (tame : AllTame (bodyAtoms list)) (depth : Nat) :
    ∀ row ∈ rowsOf depth (outlines list), Begun row.text := by
  cases list with
  | nil => exact List.forall_mem_nil _
  | cons instruction rest =>
    obtain ⟨first, behind⟩ := tame.of_append
    exact List.forall_mem_append.2 ⟨begun_of_mem_rows first depth, begun_of_mem_rowsOf behind depth⟩

theorem begun_of_mem_elseRows {elseBranch : Option (List Instruction)} (tame : AllTame (elseAtoms elseBranch))
    (depth : Nat) : ∀ row ∈ elseRows depth (elseOutline elseBranch), Begun row.text := by
  cases elseBranch with
  | none => exact List.forall_mem_nil _
  | some body => exact List.forall_mem_cons.2 ⟨plain_else.begun, begun_of_mem_rowsOf tame (depth + 1)⟩

end

/-! Line breaks that a recipe brings into its text -/

/-- The name of a symbol, or of the variable of a line break. -/
def rawName? : Atom → Option String
  | .symbol name => some name
  | .var name => if name = "$\n" then some name else none
  | .method _ | .operator _ => none

/-- How many line breaks of the text of instructions stand in names. -/
def forced (list : List Instruction) : Nat :=
  lineBreaks (String.join ((bodyAtoms list).filterMap rawName?))

theorem lineBreaks_eq_zero_of_plain {name : String} (plain : Plain name) : lineBreaks name = 0 :=
  lineBreaks_eq_zero_iff.2 plain.unbroken

theorem lineBreaks_name {atom : Atom} (tame : atom.Tame) :
    lineBreaks atom.name = lineBreaks (String.join (rawName? atom).toList) := by
  cases atom with
  | method name | operator name => exact lineBreaks_eq_zero_of_plain tame
  | symbol name =>
    rw [Atom.name, rawName?, Option.toList_some, lineBreaks_join_cons]
    rfl
  | var name =>
    rw [Atom.name, rawName?]
    split
    · rw [Option.toList_some, lineBreaks_join_cons]
      rfl
    · rename_i other
      exact lineBreaks_eq_zero_of_plain (tame.resolve_right other)

theorem breaksIn_eq {atoms : List Atom} (tame : AllTame atoms) :
    breaksIn atoms = lineBreaks (String.join (atoms.filterMap rawName?)) := by
  induction atoms with
  | nil => rfl
  | cons atom rest ih =>
    obtain ⟨first, others⟩ := List.forall_mem_cons.1 tame
    have split : (atom :: rest).filterMap rawName? = (rawName? atom).toList ++ rest.filterMap rawName? := by
      cases known : rawName? atom with
      | none => rw [List.filterMap_cons_none known, Option.toList_none, List.nil_append]
      | some name => rw [List.filterMap_cons_some known, Option.toList_some, List.singleton_append]
    rw [breaksIn_cons, ih others, lineBreaks_name first, split, lineBreaks_join_append]

theorem breaksIn_eq_forced {list : List Instruction} (tame : AllTame (bodyAtoms list)) :
    breaksIn (bodyAtoms list) = forced list :=
  breaksIn_eq tame

theorem rowsOf_ne_nil {list : List Instruction} (filled : list ≠ []) (depth : Nat) :
    rowsOf depth (outlines list) ≠ [] := by
  cases list with
  | nil => exact absurd rfl filled
  | cons instruction rest =>
    rw [outlines, rowsOf]
    cases instruction <;> exact List.cons_ne_nil _ _

theorem plain_of_forced {list : List Instruction} (tame : AllTame (bodyAtoms list)) (unforced : forced list = 0)
    (depth : Nat) : ∀ row ∈ rowsOf depth (outlines list), Plain row.text := by
  intro row mem
  refine (begun_of_mem_rowsOf tame depth row mem).plain ?_
  -- all names together have no line break, so the text of no row has one
  rw [← breaksIn_eq_forced tame, ← rowBreaks_rowsOf depth] at unforced
  have unbroken := lineBreaks_eq_zero_iff.1 unforced
  rw [String.toList_join] at unbroken
  exact lineBreaks_eq_zero_iff.2 fun broken =>
    unbroken (List.mem_flatMap.2 ⟨row.text, List.mem_map_of_mem mem, broken⟩)

/-- The instructions of the install method of a recipe. -/
def installed? (text : List Char) : Option (List Instruction) := do
  let program ← (parseRecipe text).toOption
  let formula ← Recipe.findFormulaClass program
  let body ← Recipe.findInstallBody formula
  (lowerInstall body).toOption

theorem exists_of_installed? {text : List Char} {list : List Instruction} (h : installed? text = some list) :
    ∃ program body, parseRecipe text = .ok program ∧ (∀ node ∈ body, program.Within node) ∧
      lowerInstall body = .ok list := by
  unfold installed? at h
  obtain ⟨program, read, h⟩ := Option.bind_eq_some_iff.1 h
  obtain ⟨formula, found, h⟩ := Option.bind_eq_some_iff.1 h
  obtain ⟨body, install, lowered⟩ := Option.bind_eq_some_iff.1 h
  exact ⟨program, body, Result.toOption_eq_some_iff.1 read, Recipe.within_of_findInstallBody found install,
    Result.toOption_eq_some_iff.1 lowered⟩

end Formulary.Layout
