import Formulary.Instruction
import Formulary.JsonValue
import Formulary.Text.Integer

/-!
Instructions and expressions as JSON objects with a `type` field. Writing names every field; reading fills in the
fields that have defaults, ignores unknown ones, and refuses everything else that is not as written.
-/

namespace Formulary.Codec

open JsonValue (field? stringField?)

/-! Writing -/

def tagged (type : String) (fields : List (String × JsonValue)) : JsonValue :=
  .object (("type", .string type) :: fields)

mutual

def ofExpression : Expression → JsonValue
  | .string parts => tagged "string" [("parts", .array (ofParts parts))]
  | .var name => tagged "var" [("name", .string name)]
  | .bareCall name args => tagged "bare_call" [("name", .string name), ("args", .array (ofExpressions args))]
  | .methodCall receiver method args =>
    tagged "method_call" [("receiver", ofExpression receiver), ("method", .string method),
      ("args", .array (ofExpressions args))]
  | .binary op left right =>
    tagged "binary" [("op", .string op), ("left", ofExpression left), ("right", ofExpression right)]
  | .unary op operand => tagged "unary" [("op", .string op), ("operand", ofExpression operand)]
  | .array length => tagged "array" [("length", .int length)]
  | .index base subscript =>
    tagged "index" [("base", ofExpression base), ("subscript", ofExpression subscript)]
  | .symbol name => tagged "symbol" [("name", .string name)]
  | .int value => tagged "int" [("value", .int value)]
  | .assign target value => tagged "assign" [("target", ofExpression target), ("value", ofExpression value)]
  | .splat value => tagged "splat" [("value", ofExpression value)]

def ofExpressions : List Expression → List JsonValue
  | [] => []
  | expr :: rest => ofExpression expr :: ofExpressions rest

def ofParts : List (Part Expression) → List JsonValue
  | [] => []
  | part :: rest => ofPart part :: ofParts rest

def ofPart : Part Expression → JsonValue
  | .text value => tagged "text" [("value", .string value)]
  | .embed expr => tagged "embed" [("expr", ofExpression expr)]

end

mutual

def ofInstruction : Instruction → JsonValue
  | .command name receiver args =>
    tagged "command" [("name", .string name), ("receiver", (receiver.map ofExpression).getD .null),
      ("args", .array (ofExpressions args))]
  | .conditional polarity cond thenBranch elseBranch =>
    tagged "conditional" [("kind", .string polarity.branchWord), ("cond", ofExpression cond),
      ("then_branch", .array (ofInstructions thenBranch)), ("else_branch", ofElse elseBranch)]
  | .expression expr => tagged "expression" [("expr", ofExpression expr)]

def ofInstructions : List Instruction → List JsonValue
  | [] => []
  | instruction :: rest => ofInstruction instruction :: ofInstructions rest

def ofElse : Option (List Instruction) → JsonValue
  | none => .null
  | some instructions => .array (ofInstructions instructions)

end

/-! Reading -/

/-- A fraction or a power of ten is read as the nearest binary64 number, which must be whole and fit in 64 bits. -/
def wholeDecimal? (mantissa : Int) (places : Nat) : Option Int :=
  let size := Text.nearestFloat mantissa.natAbs (-(places : Int))
  if size.floor == size && size < 9223372036854775808.0 then some (mantissa.sign * size.toUInt64.toNat) else none

/-- A number that is whole in value, a truth value, or a text that spells an integer. -/
def int? : JsonValue → Option Int
  | .int value => some value
  | .bool value => some (if value then 1 else 0)
  | .decimal mantissa places => wholeDecimal? mantissa places
  | .string value => Text.spelledInteger? value
  | _ => none

def intField? (name : String) (fields : List (String × JsonValue)) : Option Int :=
  (field? name fields).bind int?

mutual

def expression? : JsonValue → Option Expression
  | .object fields =>
    match stringField? "type" fields with
    | some "string" => return .string (← partsField? "parts" fields)
    | some "var" => return .var (← stringField? "name" fields)
    | some "bare_call" => return .bareCall (← stringField? "name" fields) (← expressionsField? "args" fields)
    | some "method_call" =>
      return .methodCall (← expressionField? "receiver" fields) (← stringField? "method" fields)
        (← expressionsField? "args" fields)
    | some "binary" =>
      return .binary (← stringField? "op" fields) (← expressionField? "left" fields)
        (← expressionField? "right" fields)
    | some "unary" => return .unary (← stringField? "op" fields) (← expressionField? "operand" fields)
    | some "array" => return .array (← intField? "length" fields)
    | some "index" =>
      return .index (← expressionField? "base" fields) (← expressionField? "subscript" fields)
    | some "symbol" => return .symbol (← stringField? "name" fields)
    | some "int" => return .int (← intField? "value" fields)
    | some "assign" => return .assign (← expressionField? "target" fields) (← expressionField? "value" fields)
    | some "splat" => return .splat (← expressionField? "value" fields)
    | _ => none
  | _ => none

def expressions? : List JsonValue → Option (List Expression)
  | [] => some []
  | item :: rest => return (← expression? item) :: (← expressions? rest)

def part? : JsonValue → Option (Part Expression)
  | .object fields =>
    match stringField? "type" fields with
    | some "text" => return .text (← stringField? "value" fields)
    | some "embed" => return .embed (← expressionField? "expr" fields)
    | _ => none
  | _ => none

def parts? : List JsonValue → Option (List (Part Expression))
  | [] => some []
  | item :: rest => return (← part? item) :: (← parts? rest)

/-- A field that must be there. -/
def expressionField? (name : String) : List (String × JsonValue) → Option Expression
  | [] => none
  | (key, value) :: rest => if key = name then expression? value else expressionField? name rest

/-- A list that is empty if the field is missing. -/
def expressionsField? (name : String) : List (String × JsonValue) → Option (List Expression)
  | [] => some []
  | (key, value) :: rest =>
    if key = name then
      match value with
      | .array items => expressions? items
      | _ => none
    else expressionsField? name rest

def partsField? (name : String) : List (String × JsonValue) → Option (List (Part Expression))
  | [] => some []
  | (key, value) :: rest =>
    if key = name then
      match value with
      | .array items => parts? items
      | _ => none
    else partsField? name rest

end

/-- A receiver, which may be missing or null. -/
def receiverField? (fields : List (String × JsonValue)) : Option (Option Expression) :=
  match field? "receiver" fields with
  | none | some .null => some none
  | some value => (expression? value).map some

def polarity? : String → Option Polarity
  | "if" => some .positive
  | "unless" => some .negative
  | _ => none

mutual

def instruction? : JsonValue → Option Instruction
  | .object fields =>
    match stringField? "type" fields with
    | some "command" =>
      return .command (← stringField? "name" fields) (← receiverField? fields)
        (← expressionsField? "args" fields)
    | some "conditional" =>
      return .conditional (← (stringField? "kind" fields).bind polarity?)
        (← (field? "cond" fields).bind expression?) (← thenField? fields) (← elseField? fields)
    | some "expression" => return .expression (← (field? "expr" fields).bind expression?)
    | _ => none
  | _ => none

def instructions? : List JsonValue → Option (List Instruction)
  | [] => some []
  | item :: rest => return (← instruction? item) :: (← instructions? rest)

def thenField? : List (String × JsonValue) → Option (List Instruction)
  | [] => none
  | (key, value) :: rest =>
    if key = "then_branch" then
      match value with
      | .array items => instructions? items
      | _ => none
    else thenField? rest

/-- An else branch, which may be missing or null. -/
def elseField? : List (String × JsonValue) → Option (Option (List Instruction))
  | [] => some none
  | (key, value) :: rest =>
    if key = "else_branch" then
      match value with
      | .array items => (instructions? items).map some
      | .null => some none
      | _ => none
    else elseField? rest

end

def instructionList? : JsonValue → Option (List Instruction)
  | .array items => instructions? items
  | _ => none

end Formulary.Codec
