import Formulary.Proofs.Layout.Outline

/-!
The line breaks in the text of instructions. Those of a string's text are escaped, so besides the breaks between lines
there are only those in the names that expressions are written with.
-/

namespace Formulary

/-- A name that an expression is written with. -/
inductive Atom where
  | method (name : String)
  | var (name : String)
  | symbol (name : String)
  | operator (name : String)

def Atom.name : Atom → String
  | method name | var name | symbol name | operator name => name

mutual

/-- The names in an expression, in the order of its text. -/
def Expression.atoms : Expression → List Atom
  | .string parts => partAtoms parts
  | .var name => [.var name]
  | .bareCall name args => .method name :: atomsOf args
  | .methodCall receiver method args => receiver.atoms ++ .method method :: atomsOf args
  | .binary op left right => left.atoms ++ .operator op :: right.atoms
  | .unary op operand => .operator op :: operand.atoms
  | .index base subscript => base.atoms ++ subscript.atoms
  | .symbol name => [.symbol name]
  | .assign target value => target.atoms ++ value.atoms
  | .splat value => value.atoms
  | .array _ | .int _ => []

def atomsOf : List Expression → List Atom
  | [] => []
  | expr :: rest => expr.atoms ++ atomsOf rest

def partAtoms : List (Part Expression) → List Atom
  | [] => []
  | .text _ :: rest => partAtoms rest
  | .embed expr :: rest => expr.atoms ++ partAtoms rest

end

mutual

def Instruction.atoms : Instruction → List Atom
  | .command name none args => .method name :: atomsOf args
  | .command name (some receiver) args => receiver.atoms ++ .method name :: atomsOf args
  | .conditional _ cond thenBranch elseBranch => cond.atoms ++ bodyAtoms thenBranch ++ elseAtoms elseBranch
  | .expression expr => expr.atoms

def bodyAtoms : List Instruction → List Atom
  | [] => []
  | instruction :: rest => instruction.atoms ++ bodyAtoms rest

def elseAtoms : Option (List Instruction) → List Atom
  | none => []
  | some instructions => bodyAtoms instructions

end

def lineBreaks (text : String) : Nat :=
  text.toList.count '\n'

def breaksIn (atoms : List Atom) : Nat :=
  lineBreaks (String.join (atoms.map Atom.name))

section Breaks

variable {text : String}

@[simp]
theorem lineBreaks_append (first second : String) :
    lineBreaks (first ++ second) = lineBreaks first + lineBreaks second := by
  rw [lineBreaks, String.toList_append, List.count_append]
  rfl

theorem lineBreaks_eq_zero_iff : lineBreaks text = 0 ↔ '\n' ∉ text.toList :=
  List.count_eq_zero

theorem lineBreaks_join_cons (text : String) (rest : List String) :
    lineBreaks (String.join (text :: rest)) = lineBreaks text + lineBreaks (String.join rest) := by
  rw [String.join_cons, lineBreaks_append]

theorem lineBreaks_join_append (first second : List String) :
    lineBreaks (String.join (first ++ second)) = lineBreaks (String.join first) + lineBreaks (String.join second) := by
  rw [String.join_append, lineBreaks_append]

theorem lineBreaks_intercalate (separator : String) (items : List String) :
    lineBreaks (String.intercalate separator items) =
      (items.length - 1) * lineBreaks separator + lineBreaks (String.join items) := by
  induction items with
  | nil => simp [lineBreaks]
  | cons item rest ih =>
    cases rest with
    | nil => simp
    | cons next others =>
      have grown : (item :: next :: others).length - 1 = (next :: others).length - 1 + 1 := rfl
      rw [String.intercalate_cons_cons, lineBreaks_append, lineBreaks_append, ih, lineBreaks_join_cons item, grown,
        Nat.succ_mul]
      omega

@[simp]
theorem breaksIn_cons (atom : Atom) (rest : List Atom) :
    breaksIn (atom :: rest) = lineBreaks atom.name + breaksIn rest :=
  lineBreaks_join_cons _ _

@[simp]
theorem breaksIn_append (first second : List Atom) : breaksIn (first ++ second) = breaksIn first + breaksIn second := by
  rw [breaksIn, List.map_append, lineBreaks_join_append]
  rfl

end Breaks

namespace Layout

/-! Texts of expressions -/

theorem newline_not_mem_hexDigits : ∀ n < 0x20, '\n' ∉ Text.hexDigits 4 n := by
  decide

theorem newline_not_mem_textChar (c : Char) : '\n' ∉ textChar c := by
  unfold textChar
  split
  · rename_i escaped
    obtain rfl | rfl | rfl := escaped <;> decide
  split
  · decide
  split
  · decide
  split
  · decide
  split
  · decide
  split
  · decide
  split
  · rename_i control
    intro mem
    obtain slash | mem := List.mem_cons.1 mem
    · cases slash
    obtain letter | mem := List.mem_cons.1 mem
    · cases letter
    · exact newline_not_mem_hexDigits c.toNat control mem
  · rename_i other _ _ _ _ _
    exact fun mem => other (List.mem_singleton.1 mem).symm

theorem lineBreaks_text (value : String) : lineBreaks (text value) = 0 := by
  rw [lineBreaks_eq_zero_iff, text, String.toList_ofList, List.mem_flatMap]
  rintro ⟨c, -, mem⟩
  exact newline_not_mem_textChar c mem

theorem lineBreaks_repr (n : Nat) : lineBreaks n.repr = 0 := by
  rw [lineBreaks_eq_zero_iff, Nat.toList_repr]
  intro mem
  exact absurd (Nat.isDigit_of_mem_toDigits (by decide) (by decide) mem) (by decide)

theorem lineBreaks_toString (value : Int) : lineBreaks (toString value) = 0 := by
  rw [Int.toString_eq_repr, Int.repr_eq_if]
  split
  · exact lineBreaks_repr _
  · rw [lineBreaks_append, lineBreaks_repr]
    rfl

theorem lineBreaks_operand (expr : Expression) (rendered : String) :
    lineBreaks (operand expr rendered) = lineBreaks rendered := by
  unfold operand
  split
  · rw [lineBreaks_append, lineBreaks_append]
    exact Nat.zero_add _
  · rw [lineBreaks_append, lineBreaks_append]
    exact Nat.zero_add _
  · rfl

theorem lineBreaks_call (callee : String) (args : List String) :
    lineBreaks (call callee args) = lineBreaks callee + lineBreaks (String.join args) := by
  rw [call, Text.commaSeparated, lineBreaks_append, lineBreaks_append, lineBreaks_append, lineBreaks_intercalate]
  exact congrArg (lineBreaks callee + ·) (Nat.zero_add _)

theorem lineBreaks_looseCall (callee : String) (args : List String) :
    lineBreaks (looseCall callee args) = lineBreaks callee + lineBreaks (String.join args) := by
  unfold looseCall
  split
  · rename_i empty
    rw [List.isEmpty_iff.1 empty]
    rfl
  · exact lineBreaks_call callee args

mutual

/-- All line breaks in the text of an expression are in its names. -/
theorem lineBreaks_expression (expr : Expression) : lineBreaks (expression expr) = breaksIn expr.atoms := by
  cases expr with
  | string parts =>
    rw [expression, Expression.atoms, lineBreaks_append, lineBreaks_append, lineBreaks_partTexts parts]
    exact Nat.zero_add _
  | var name => rfl
  | bareCall name args =>
    rw [expression, Expression.atoms, lineBreaks_looseCall, lineBreaks_expressions args, breaksIn_cons, Atom.name]
  | methodCall receiver method args =>
    rw [expression, Expression.atoms, lineBreaks_looseCall, lineBreaks_append, lineBreaks_append, lineBreaks_operand,
      lineBreaks_expression receiver, lineBreaks_expressions args, breaksIn_append, breaksIn_cons, Atom.name]
    exact Nat.add_assoc _ _ _
  | binary op left right =>
    rw [expression, Expression.atoms, lineBreaks_append, lineBreaks_append, lineBreaks_append, lineBreaks_append,
      lineBreaks_operand, lineBreaks_operand, lineBreaks_expression left, lineBreaks_expression right, breaksIn_append,
      breaksIn_cons, Atom.name, ← Nat.add_assoc]
    rfl
  | unary op inner =>
    have space : lineBreaks (if op = "not" then " " else "") = 0 := by split <;> rfl
    rw [expression, Expression.atoms, lineBreaks_append, lineBreaks_append, space, lineBreaks_operand,
      lineBreaks_expression inner, breaksIn_cons, Atom.name]
    rfl
  | array length =>
    rw [expression, Expression.atoms, lineBreaks_call, lineBreaks_join_cons, lineBreaks_toString]
    rfl
  | index base subscript =>
    rw [expression, Expression.atoms, lineBreaks_append, lineBreaks_append, lineBreaks_append, lineBreaks_operand,
      lineBreaks_expression base, lineBreaks_expression subscript, breaksIn_append]
    rfl
  | symbol name =>
    rw [expression, Expression.atoms, lineBreaks_append, breaksIn_cons, Atom.name]
    exact Nat.zero_add _
  | int value => exact lineBreaks_toString value
  | assign target value =>
    rw [expression, Expression.atoms, lineBreaks_append, lineBreaks_append, lineBreaks_expression target,
      lineBreaks_expression value, breaksIn_append]
    rfl
  | splat value =>
    rw [expression, Expression.atoms, lineBreaks_append, lineBreaks_operand, lineBreaks_expression value]
    exact Nat.zero_add _

theorem lineBreaks_expressions (args : List Expression) :
    lineBreaks (String.join (expressions args)) = breaksIn (atomsOf args) := by
  cases args with
  | nil => rfl
  | cons expr rest =>
    rw [expressions, atomsOf, lineBreaks_join_cons, breaksIn_append, lineBreaks_expression expr,
      lineBreaks_expressions rest]

theorem lineBreaks_partTexts (parts : List (Part Expression)) :
    lineBreaks (String.join (partTexts parts)) = breaksIn (partAtoms parts) := by
  cases parts with
  | nil => rfl
  | cons part rest =>
    cases part with
    | text value =>
      rw [partTexts, partAtoms, lineBreaks_join_cons, partText, lineBreaks_text, lineBreaks_partTexts rest]
      exact Nat.zero_add _
    | embed expr =>
      have own : lineBreaks (partText (.embed expr)) = breaksIn expr.atoms := by
        rw [← lineBreaks_expression expr]
        unfold partText
        split
        · contradiction
        · rename_i name same
          cases same
          rw [lineBreaks_append, expression]
          exact Nat.zero_add _
        · rename_i same
          cases same
          rw [lineBreaks_append, lineBreaks_append]
          exact Nat.zero_add _
      rw [partTexts, partAtoms, lineBreaks_join_cons, own, breaksIn_append, lineBreaks_partTexts rest]

end

/-! Rows -/

def rowBreaks (rows : List Row) : Nat :=
  lineBreaks (String.join (rows.map Row.text))

theorem rowBreaks_cons (row : Row) (rows : List Row) : rowBreaks (row :: rows) = lineBreaks row.text + rowBreaks rows :=
  lineBreaks_join_cons _ _

theorem rowBreaks_append (first second : List Row) :
    rowBreaks (first ++ second) = rowBreaks first + rowBreaks second := by
  rw [rowBreaks, List.map_append, lineBreaks_join_append]
  rfl

theorem lineBreaks_commandText (name : String) (args : List Expression) (receiver : Option Expression) :
    lineBreaks (commandText name args receiver) = breaksIn (Instruction.command name receiver args).atoms := by
  cases receiver with
  | none => rw [commandText, Instruction.atoms, lineBreaks_call, lineBreaks_expressions, breaksIn_cons, Atom.name]
  | some receiver =>
    rw [commandText, Instruction.atoms, lineBreaks_append, lineBreaks_append, lineBreaks_operand, lineBreaks_call,
      lineBreaks_expression, lineBreaks_expressions, breaksIn_append, breaksIn_cons, Atom.name]
    rfl

theorem lineBreaks_header (polarity : Polarity) (cond : String) :
    lineBreaks (header polarity cond) = lineBreaks cond := by
  rw [header, lineBreaks_append, lineBreaks_append, lineBreaks_append]
  cases polarity <;> exact Nat.zero_add _

mutual

theorem rowBreaks_rows (depth : Nat) (instruction : Instruction) :
    rowBreaks ((outline instruction).rows depth) = breaksIn instruction.atoms := by
  cases instruction with
  | command name receiver args => exact lineBreaks_commandText name args receiver
  | conditional polarity cond thenBranch elseBranch =>
    rw [outline, Outline.rows, Instruction.atoms, rowBreaks_append, rowBreaks_cons, lineBreaks_header,
      lineBreaks_expression, rowBreaks_rowsOf (depth + 1) thenBranch, rowBreaks_elseRows depth elseBranch,
      breaksIn_append, breaksIn_append]
  | expression expr => exact lineBreaks_expression expr

theorem rowBreaks_rowsOf (depth : Nat) (list : List Instruction) :
    rowBreaks (rowsOf depth (outlines list)) = breaksIn (bodyAtoms list) := by
  cases list with
  | nil => rfl
  | cons instruction rest =>
    rw [outlines, rowsOf, bodyAtoms, rowBreaks_append, breaksIn_append, rowBreaks_rows depth instruction,
      rowBreaks_rowsOf depth rest]

theorem rowBreaks_elseRows (depth : Nat) (elseBranch : Option (List Instruction)) :
    rowBreaks (elseRows depth (elseOutline elseBranch)) = breaksIn (elseAtoms elseBranch) := by
  cases elseBranch with
  | none => rfl
  | some instructions =>
    have word : lineBreaks "else:" = 0 := by decide
    rw [elseOutline, elseRows, elseAtoms, rowBreaks_cons, rowBreaks_rowsOf (depth + 1) instructions, word, Nat.zero_add]

end

theorem lineBreaks_line (row : Row) : lineBreaks row.line = lineBreaks row.text := by
  have spaces : lineBreaks (indent row.depth) = 0 := by
    rw [lineBreaks_eq_zero_iff, indent, String.toList_ofList]
    intro mem
    cases List.eq_of_mem_replicate mem
  rw [Row.line, lineBreaks_append, spaces, Nat.zero_add]

theorem lineBreaks_lines (rows : List Row) : lineBreaks (String.join (rows.map Row.line)) = rowBreaks rows := by
  induction rows with
  | nil => rfl
  | cons row rest ih => rw [List.map_cons, lineBreaks_join_cons, lineBreaks_line, ih, rowBreaks_cons]

/-- A line break stands between two rows or in a name. -/
theorem lineBreaks_instructions (list : List Instruction) (depth : Nat) :
    lineBreaks (instructions list depth) =
      (rowsOf depth (outlines list)).length - 1 + breaksIn (bodyAtoms list) := by
  rw [instructions, lines_eq, lineBreaks_intercalate, List.length_map, lineBreaks_lines, rowBreaks_rowsOf]
  exact congrArg (· + _) (Nat.mul_one _)

end Layout

end Formulary
