import Formulary.Grammar.Control
import Formulary.Grammar.Literal

/-! Operands: literals, names, bracketed expressions and keyword constructs. -/

namespace Formulary.Grammar

variable (parse : Rules)

def fromNumber {α : Type} (value : Except Text.NumberFault α) : Parser α :=
  match value with
  | .ok value => return value
  | .error fault => throw (.number fault)

def keyword (token : Token) (word : String) : Parser Node := do
  match word with
  | "nil" | "true" | "false" | "self" | "__FILE__" =>
    discard advance
    return .reference token.pos word
  | "if" | "unless" => parse .branch
  | "while" => loop parse .positive
  | "until" => loop parse .negative
  | "for" => forLoop parse
  | "case" => caseOf parse
  | "begin" => beginBlock parse
  | "def" => methodDef parse
  | "class" => classDef parse
  | "module" => moduleDef parse
  | "return" | "next" | "break" => jump parse word
  | "yield" | "super" => keywordCall parse word
  | "not" =>
    discard advance
    return .unary token.pos "not" (← parse .expression)
  | _ => complain (.unexpectedKeyword word)

/-- A name in small letters: a variable if one is declared and no parenthesis is attached, else a call. -/
def identifier (name : String) (pos : Position) : Parser Node := do
  if (← isLocal name) && !(← atCallParen) then return .reference pos name
  else callRest parse name none pos

def constant (name : String) (pos : Position) : Parser Node := do
  if ← atCallParen then callRest parse name none pos
  else return .reference pos name

def parenthesized (pos : Position) : Parser Node :=
  enclosed do
    let statements ← parse (.statements ⟨[], some .round⟩)
    consume (·.isClosing .round) (.expectedClosing .round)
    return .paren pos statements

def primary : Parser Node := do
  let token ← peek
  let pos := token.pos
  match token.lexeme with
  | .integer digits =>
    discard advance
    return .int pos (← fromNumber (Text.integerLiteral digits))
  | .float digits =>
    discard advance
    return .float pos (← fromNumber (Text.floatLiteral digits))
  | .string segments =>
    discard advance
    stringLiteral parse pos segments
  | .shell segments =>
    discard advance
    return .shell pos (← pieces parse segments)
  | .regexp source flags =>
    discard advance
    return .regexp pos source flags
  | .symbol name =>
    discard advance
    return .symbol pos name
  | .words items =>
    discard advance
    return .array pos (items.map fun item => .string pos [.text item])
  | .symbols items =>
    discard advance
    return .array pos (items.map (.symbol pos ·))
  | .instanceVar name | .globalVar name =>
    discard advance
    return .reference pos name
  | .constant name =>
    discard advance
    constant parse name pos
  | .identifier name =>
    discard advance
    identifier parse name pos
  | .keyword word => keyword parse token word
  | .opening .round =>
    discard advance
    parenthesized parse pos
  | .opening .square =>
    discard advance
    return .array pos (← delimitedArguments parse .square)
  | .opening .curly => hash parse
  | .doubleColon =>
    discard advance
    return .constPath pos none (← consumeConstant .expectedConstantAfterColons)
  | .operator "->" => complain .lambda
  | _ => complain .unexpected

def operand : Parser Node := do
  let node ← primary parse
  parse (.trailers node)

end Formulary.Grammar
