import Formulary.Instruction
import Formulary.Text.Quoted

/-!
Instructions as lines of text, one per instruction, condition and else, with the branches indented:

    system("./configure", "--prefix=$prefix")
    if build.with__q("docs"):
        doc.install("manual.html")
-/

namespace Formulary

namespace Layout

/-- A character of a string's text. A dollar sign is escaped because it begins a substitution. -/
def textChar (c : Char) : List Char :=
  if c = '"' ∨ c = '\\' ∨ c = '$' then ['\\', c]
  else if c = '\n' then ['\\', 'n']
  else if c = '\r' then ['\\', 'r']
  else if c = '\t' then ['\\', 't']
  else if c = Char.ofNat 0x08 then ['\\', 'b']
  else if c = Char.ofNat 0x0C then ['\\', 'f']
  else if c.toNat < 0x20 then '\\' :: 'u' :: Text.hexDigits 4 c.toNat
  else [c]

def text (value : String) : String :=
  String.ofList (value.toList.flatMap textChar)

/-- An expression where an operand stands: binary operations and assignments are put in parentheses. -/
def operand (expr : Expression) (rendered : String) : String :=
  match expr with
  | .binary .. | .assign .. => "(" ++ rendered ++ ")"
  | _ => rendered

def call (callee : String) (args : List String) : String :=
  callee ++ "(" ++ Text.commaSeparated args ++ ")"

/-- A call that is written without parentheses when it has no arguments. -/
def looseCall (callee : String) (args : List String) : String :=
  if args.isEmpty then callee else call callee args

mutual

def expression : Expression → String
  | .string parts => "\"" ++ String.join (partTexts parts) ++ "\""
  | .var name => name
  | .bareCall name args => looseCall name (expressions args)
  | .methodCall receiver method args =>
    looseCall (operand receiver (expression receiver) ++ "." ++ method) (expressions args)
  | .binary op left right =>
    operand left (expression left) ++ " " ++ op ++ " " ++ operand right (expression right)
  | .unary op inner => op ++ (if op = "not" then " " else "") ++ operand inner (expression inner)
  | .array length => call "array" [toString length]
  | .index base subscript => operand base (expression base) ++ "[" ++ expression subscript ++ "]"
  | .symbol name => ":" ++ name
  | .int value => toString value
  | .assign target value => expression target ++ " = " ++ expression value
  | .splat value => "*" ++ operand value (expression value)

def expressions : List Expression → List String
  | [] => []
  | expr :: rest => expression expr :: expressions rest

def partTexts : List (Part Expression) → List String
  | [] => []
  | part :: rest => partText part :: partTexts rest

/-- A text, or a substitution: of a variable by its name, of anything else in braces. -/
def partText : Part Expression → String
  | .text value => text value
  | .embed (.var name) => "$" ++ name
  | .embed expr => "$\x7b" ++ expression expr ++ "\x7d"

end

def indent (depth : Nat) : String :=
  String.ofList (List.replicate (4 * depth) ' ')

mutual

def instructionLines (depth : Nat) : Instruction → List String
  | .command name none args => [indent depth ++ call name (expressions args)]
  | .command name (some receiver) args =>
    [indent depth ++ (operand receiver (expression receiver) ++ "." ++ call name (expressions args))]
  | .conditional polarity cond thenBranch elseBranch =>
    (indent depth ++ (polarity.branchWord ++ " " ++ expression cond ++ ":")) ::
      lines (depth + 1) thenBranch ++ elseLines depth elseBranch
  | .expression expr => [indent depth ++ expression expr]

def lines (depth : Nat) : List Instruction → List String
  | [] => []
  | instruction :: rest => instructionLines depth instruction ++ lines depth rest

def elseLines (depth : Nat) : Option (List Instruction) → List String
  | none => []
  | some instructions => (indent depth ++ "else:") :: lines (depth + 1) instructions

end

/-- The text of an instruction list, indented by `depth` steps. -/
def instructions (list : List Instruction) (depth : Nat) : String :=
  String.intercalate "\n" (lines depth list)

end Layout

end Formulary
