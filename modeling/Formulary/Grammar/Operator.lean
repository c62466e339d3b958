import Formulary.Grammar.Basic
import Formulary.Text.Case

/-! Statements and the expressions that operators build. -/

namespace Formulary.Grammar

variable (parse : Rules)

def statements (stop : Stop) : Parser (List Node) := do
  skipSeparators
  if ← atStop stop then return []
  let first ← parse .statement
  if !(← atStop stop) && !(← check Lexeme.isSeparator) then complain .unexpectedAfterStatement
  let more ← parse (.statements stop)
  return first :: more

def statement : Parser Node := do
  let node ← parse .connective
  parse (.modifiers node)

/-- The modifiers after a statement, each of which applies to all that stands before it. -/
def modifiers (node : Node) : Parser Node := do
  let branch (polarity : Polarity) : Parser Node := do
    discard advance
    let cond ← parse .connective
    parse (.modifiers (.branchModifier node.pos polarity cond node))
  let loop (polarity : Polarity) : Parser Node := do
    discard advance
    let cond ← parse .connective
    parse (.modifiers (.loop node.pos polarity cond [node] true))
  match (← peek).lexeme.keyword? with
  | some "if" => branch .positive
  | some "unless" => branch .negative
  | some "while" => loop .positive
  | some "until" => loop .negative
  | some "rescue" => do
    discard advance
    let rescue ← parse .connective
    parse (.modifiers (.rescueModifier node.pos node rescue))
  | _ => return node

/-- A chain of `and` and `or`, which bind alike. -/
def connective : Parser Node := do
  let left ← parse .negation
  parse (.connectiveRest left)

def connectiveRest (left : Node) : Parser Node := do
  match (← peek).lexeme.keyword? with
  | some word =>
    if word = "and" ∨ word = "or" then
      discard advance
      skipNewlines
      let right ← parse .negation
      parse (.connectiveRest (.binary left.pos word left right))
    else return left
  | none => return left

def negation : Parser Node := do
  let token ← peek
  if token.lexeme.isKeyword "not" then
    discard advance
    return .unary token.pos "not" (← parse .negation)
  else parse .expression

/-- The operators that assign the result of another operator. -/
def assignmentOperators : List String :=
  ["+=", "-=", "*=", "/=", "%=", "**=", "||=", "&&=", "|=", "&=", "^=", "<<=", ">>="]

def isLocalName (name : String) : Bool :=
  name.toList.head?.any fun c => Text.isLower c || c = '_'

/-- A node as the target of the assignment at `token`. A bare name becomes a local variable. -/
def assignable (node : Node) (token : Token) : Parser Node := do
  match node with
  | .reference _ name =>
    if valueWords.contains name then complainAt (.unassignable name) token
    else
      if isLocalName name then declare name
      return node
  | .call pos name none [] none false =>
    declare name
    return .reference pos name
  | .call _ _ (some _) [] none _ => return node
  | .index .. | .constPath .. => return node
  | _ => complainAt .invalidTarget token

/-- An assignment, whose target is declared before the value is read, or an operator expression. -/
def expression : Parser Node := do
  let target ← parse .choice
  let token ← peek
  match token.lexeme.operator? with
  | none => return target
  | some op =>
    if op = "=" then
      let target ← assignable target token
      discard advance
      skipNewlines
      return .assign target.pos target (← parse .expression)
    else if assignmentOperators.contains op then
      let target ← assignable target token
      discard advance
      skipNewlines
      return .opAssign target.pos target (String.ofList op.toList.dropLast) (← parse .expression)
    else return target

def endsRange : Lexeme Token → Bool
  | .newline | .endOfText | .closing .round => true
  | _ => false

def range : Parser Node := do
  let low ← parse (.binary 0)
  let token ← peek
  if token.lexeme.isOperator ".." || token.lexeme.isOperator "..." then
    discard advance
    let high ← if ← check endsRange then pure none else some <$> parse (.binary 0)
    return .range low.pos low high (token.lexeme.isOperator "...")
  else return low

def choice : Parser Node := do
  let cond ← range parse
  if ← check Lexeme.isQuestion then
    discard advance
    skipNewlines
    let whenTrue ← parse .choice
    skipNewlines
    consume Lexeme.isColon .expectedColon
    skipNewlines
    return .choice cond.pos cond whenTrue (← parse .choice)
  else return cond

/-- How tightly a binary operator binds. -/
def precedence? (op : String) : Option Nat :=
  match op with
  | "||" => some 1
  | "&&" => some 2
  | "<=>" | "==" | "===" | "!=" | "=~" | "!~" => some 3
  | "<" | "<=" | ">" | ">=" => some 4
  | "|" | "^" => some 5
  | "&" => some 6
  | "<<" | ">>" => some 7
  | "+" | "-" => some 8
  | "*" | "/" | "%" => some 9
  | "**" => some 11
  | _ => none

def isRightAssociative (op : String) : Bool :=
  op = "**"

/-- Operators that bind at least as tightly as `least`. -/
def binary (least : Nat) : Parser Node := do
  let left ← parse .unary
  parse (.binaryRest least left)

def binaryRest (least : Nat) (left : Node) : Parser Node := do
  match (← peek).lexeme.operator? with
  | none => return left
  | some op =>
    match precedence? op with
    | none => return left
    | some precedence =>
      if precedence < least then return left
      else
        discard advance
        skipNewlines
        let right ← parse (.binary (if isRightAssociative op then precedence else precedence + 1))
        parse (.binaryRest least (.binary left.pos op left right))

def isNumber : Lexeme Token → Bool
  | .integer _ | .float _ => true
  | _ => false

/-- A sign applied to an operand; a sign written directly before a number is part of the number. -/
def signed (pos : Position) (sign : String) (operand : Node) : Node :=
  match sign, operand with
  | "-", .int _ value => .int pos (-value)
  | "-", .float _ value => .float pos (-value)
  | "+", .int numberPos value => .int numberPos value
  | "+", .float numberPos value => .float numberPos value
  | sign, operand => .unary pos sign operand

def unary : Parser Node := do
  let token ← peek
  match token.lexeme.operator? with
  | none => parse .operand
  | some op =>
    if op = "!" ∨ op = "~" then
      discard advance
      return .unary token.pos op (← parse .unary)
    else if op = "-" ∨ op = "+" then
      discard advance
      let following ← peek
      if isNumber following.lexeme && !following.spaced then
        return signed token.pos op (← parse .operand)
      else return .unary token.pos op (← parse .unary)
    else parse .operand

end Formulary.Grammar
