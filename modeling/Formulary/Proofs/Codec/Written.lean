import Formulary.Instruction.Codec

/-! Instructions that are written as JSON are read as they were, and what is written leaves no field out. -/

namespace Formulary.Codec

open JsonValue (field? stringField?)

/-! Fields -/

@[simp]
theorem field?_cons (name key : String) (value : JsonValue) (fields : List (String × JsonValue)) :
    field? name ((key, value) :: fields) = if key = name then some value else field? name fields := by
  unfold field?
  by_cases same : key = name <;> simp [same]

@[simp]
theorem stringField?_cons (name key : String) (value : JsonValue) (fields : List (String × JsonValue)) :
    stringField? name ((key, value) :: fields) = if key = name then value.string? else stringField? name fields := by
  unfold stringField?
  rw [field?_cons]
  split <;> rfl

@[simp]
theorem intField?_cons (name key : String) (value : JsonValue) (fields : List (String × JsonValue)) :
    intField? name ((key, value) :: fields) = if key = name then int? value else intField? name fields := by
  unfold intField?
  rw [field?_cons]
  split <;> rfl

@[simp]
theorem string?_string (value : String) : (JsonValue.string value).string? = some value := rfl

@[simp]
theorem int?_int (value : Int) : int? (.int value) = some value := rfl

/-! What is written is read -/

mutual

theorem expression?_ofExpression : ∀ expr, expression? (ofExpression expr) = some expr
  | .string parts => by simp [ofExpression, tagged, expression?, partsField?, parts?_ofParts parts]
  | .var _ | .symbol _ => by simp [ofExpression, tagged, expression?]
  | .array _ | .int _ => by simp [ofExpression, tagged, expression?]
  | .bareCall _ args => by
    simp [ofExpression, tagged, expression?, expressionsField?, expressions?_ofExpressions args]
  | .methodCall receiver _ args => by
    simp [ofExpression, tagged, expression?, expressionField?, expressionsField?, expression?_ofExpression receiver,
      expressions?_ofExpressions args]
  | .binary _ left right | .index left right | .assign left right => by
    simp [ofExpression, tagged, expression?, expressionField?, expression?_ofExpression left,
      expression?_ofExpression right]
  | .unary _ value | .splat value => by
    simp [ofExpression, tagged, expression?, expressionField?, expression?_ofExpression value]

theorem expressions?_ofExpressions : ∀ exprs, expressions? (ofExpressions exprs) = some exprs
  | [] => rfl
  | expr :: rest => by
    simp [ofExpressions, expressions?, expression?_ofExpression expr, expressions?_ofExpressions rest]

theorem parts?_ofParts : ∀ parts, parts? (ofParts parts) = some parts
  | [] => rfl
  | part :: rest => by simp [ofParts, parts?, part?_ofPart part, parts?_ofParts rest]

theorem part?_ofPart : ∀ part, part? (ofPart part) = some part
  | .text _ => by simp [ofPart, tagged, part?]
  | .embed expr => by simp [ofPart, tagged, part?, expressionField?, expression?_ofExpression expr]

end

/-- A receiver is written apart from a missing one. -/
theorem receiverField?_of_field? {receiver : Option Expression} {fields : List (String × JsonValue)}
    (there : field? "receiver" fields = some ((receiver.map ofExpression).getD .null)) :
    receiverField? fields = some receiver := by
  unfold receiverField?
  rw [there]
  cases receiver with
  | none => rfl
  | some expr =>
    have read := expression?_ofExpression expr
    cases written : ofExpression expr with
    | null => simp [written, expression?] at read
    | _ => simpa [written] using read

@[simp]
theorem elseField?_cons_of_ne {key : String} (other : key ≠ "else_branch") (value : JsonValue)
    (fields : List (String × JsonValue)) : elseField? ((key, value) :: fields) = elseField? fields := by
  rw [elseField?.eq_def]
  exact if_neg other

mutual

theorem instruction?_ofInstruction : ∀ instruction, instruction? (ofInstruction instruction) = some instruction
  | .command _ receiver args => by
    have there := @receiverField?_of_field? receiver
    simp [ofInstruction, tagged, instruction?, expressionsField?, expressions?_ofExpressions args, there]
  | .conditional polarity cond thenBranch elseBranch => by
    have kind : polarity? polarity.branchWord = some polarity := by cases polarity <;> rfl
    simp [ofInstruction, tagged, instruction?, thenField?, kind, expression?_ofExpression cond,
      instructions?_ofInstructions thenBranch, elseField?_ofElse elseBranch]
  | .expression expr => by simp [ofInstruction, tagged, instruction?, expression?_ofExpression expr]

theorem instructions?_ofInstructions : ∀ list, instructions? (ofInstructions list) = some list
  | [] => rfl
  | instruction :: rest => by
    simp [ofInstructions, instructions?, instruction?_ofInstruction instruction, instructions?_ofInstructions rest]

theorem elseField?_ofElse : ∀ branch, elseField? [("else_branch", ofElse branch)] = some branch
  | none => rfl
  | some list => by simp [elseField?, ofElse, instructions?_ofInstructions list]

end

/-! What is written is written in full -/

/-- The fields of an object of each type, in the order in which they are written. -/
def fieldNames : List (String × List String) :=
  [("text", ["value"]), ("embed", ["expr"]), ("string", ["parts"]), ("var", ["name"]), ("bare_call", ["name", "args"]),
   ("method_call", ["receiver", "method", "args"]), ("binary", ["op", "left", "right"]), ("unary", ["op", "operand"]),
   ("array", ["length"]), ("index", ["base", "subscript"]), ("symbol", ["name"]), ("int", ["value"]),
   ("assign", ["target", "value"]), ("splat", ["value"]), ("command", ["name", "receiver", "args"]),
   ("conditional", ["kind", "cond", "then_branch", "else_branch"]), ("expression", ["expr"])]

/-- A JSON value whose objects leave no field of their type out. -/
inductive Full : JsonValue → Prop
  | null : Full .null
  | int (value : Int) : Full (.int value)
  | string (value : String) : Full (.string value)
  | array {items : List JsonValue} : (∀ item ∈ items, Full item) → Full (.array items)
  | object {type : String} {fields : List (String × JsonValue)} :
      fieldNames.lookup type = some (fields.map Prod.fst) → (∀ field ∈ fields, Full field.2) → Full (tagged type fields)

mutual

theorem full_ofExpression : ∀ expr, Full (ofExpression expr)
  | .string parts => .object rfl (by simp [Full.array (full_ofParts parts)])
  | .var name => .object rfl (by simp [Full.string])
  | .bareCall name args => .object rfl (by simp [Full.string, Full.array (full_ofExpressions args)])
  | .methodCall receiver method args =>
    .object rfl (by simp [Full.string, full_ofExpression receiver, Full.array (full_ofExpressions args)])
  | .binary op left right =>
    .object rfl (by simp [Full.string, full_ofExpression left, full_ofExpression right])
  | .unary op operand => .object rfl (by simp [Full.string, full_ofExpression operand])
  | .array length => .object rfl (by simp [Full.int])
  | .index base subscript => .object rfl (by simp [full_ofExpression base, full_ofExpression subscript])
  | .symbol name => .object rfl (by simp [Full.string])
  | .int value => .object rfl (by simp [Full.int])
  | .assign target value => .object rfl (by simp [full_ofExpression target, full_ofExpression value])
  | .splat value => .object rfl (by simp [full_ofExpression value])

theorem full_ofExpressions : ∀ exprs, ∀ item ∈ ofExpressions exprs, Full item
  | [] => nofun
  | expr :: rest => List.forall_mem_cons.2 ⟨full_ofExpression expr, full_ofExpressions rest⟩

theorem full_ofParts : ∀ parts, ∀ item ∈ ofParts parts, Full item
  | [] => nofun
  | part :: rest => List.forall_mem_cons.2 ⟨full_ofPart part, full_ofParts rest⟩

theorem full_ofPart : ∀ part, Full (ofPart part)
  | .text value => .object rfl (by simp [Full.string])
  | .embed expr => .object rfl (by simp [full_ofExpression expr])

end

theorem full_ofReceiver (receiver : Option Expression) : Full ((receiver.map ofExpression).getD .null) := by
  cases receiver with
  | none => exact .null
  | some expr => exact full_ofExpression expr

mutual

theorem full_ofInstruction : ∀ instruction, Full (ofInstruction instruction)
  | .command name receiver args =>
    .object rfl (by simp [Full.string, full_ofReceiver receiver, Full.array (full_ofExpressions args)])
  | .conditional polarity cond thenBranch elseBranch =>
    .object rfl (by
      simp [Full.string, full_ofExpression cond, Full.array (full_ofInstructions thenBranch), full_ofElse elseBranch])
  | .expression expr => .object rfl (by simp [full_ofExpression expr])

theorem full_ofInstructions : ∀ list, ∀ item ∈ ofInstructions list, Full item
  | [] => nofun
  | instruction :: rest => List.forall_mem_cons.2 ⟨full_ofInstruction instruction, full_ofInstructions rest⟩

theorem full_ofElse : ∀ branch, Full (ofElse branch)
  | none => .null
  | some list => .array (full_ofInstructions list)

end

end Formulary.Codec
