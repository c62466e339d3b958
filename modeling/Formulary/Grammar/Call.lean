import Formulary.Grammar.Basic

/-! Calls: arguments, blocks, and the dots and brackets that follow an operand. -/

namespace Formulary.Grammar

variable (parse : Rules)

/-- A label or a prefix sign with its value, or an expression, which an arrow makes a pair. -/
def argument (named : Bool) : Parser (Sum Node (Node × Node)) := do
  let token ← peek
  match token.lexeme with
  | .label name =>
    discard advance
    skipNewlines
    return .inr (.symbol token.pos name, ← parse .expression)
  | .operator "*" =>
    discard advance
    return .inl (.splat token.pos (← parse .expression) false)
  | .operator "**" =>
    discard advance
    return .inl (.splat token.pos (← parse .expression) true)
  | .operator "&" =>
    discard advance
    return .inl (.blockPass token.pos (← parse .expression))
  | _ =>
    let value ← parse .expression
    if ← check Lexeme.isArrow then
      discard advance
      skipNewlines
      return .inr (value, ← parse .expression)
    else if named then complain .positionalAfterPairs
    else return .inl value

def atCloser (closer : Option Bracket) : Parser Bool :=
  match closer with
  | some bracket => check (·.isClosing bracket)
  | none => return false

/-- Arguments separated by commas: the positional ones and the pairs, both in order. `named` says that a pair
came before; no plain expression may follow one. -/
def arguments (closer : Option Bracket) (named : Bool) : Parser (List Node × List (Node × Node)) := do
  let item ← argument parse named
  let goOn ← check Lexeme.isComma
  if goOn then
    discard advance
    skipNewlines
  let (args, pairs) ←
    if !goOn || (← atCloser closer) then pure ([], [])
    else parse (.arguments closer (named || item.isRight))
  match item with
  | .inl arg => return (arg :: args, pairs)
  | .inr pair => return (args, pair :: pairs)

/-- Arguments whose pairs make up a last argument. -/
def argumentList (closer : Option Bracket) : Parser (List Node) := do
  let (args, pairs) ← parse (.arguments closer false)
  match pairs with
  | [] => return args
  | (key, _) :: _ => return args ++ [.hash key.pos pairs false]

/-- Arguments of a call without parentheses; `do` belongs to the outer call. -/
def commandArguments : Parser (List Node) :=
  leavingDo (argumentList parse none)

/-- Arguments up to a closing bracket, the opening one already read. -/
def delimitedArguments (closer : Bracket) : Parser (List Node) :=
  enclosed do
    skipNewlines
    if ← check (·.isClosing closer) then
      discard advance
      return []
    else
      let args ← argumentList parse (some closer)
      skipNewlines
      consume (·.isClosing closer) (.expectedClosing closer)
      return args

/-! Blocks -/

/-- The names up to the bar that closes them. -/
def blockNames : Parser (List String) := do
  if ← check (·.isOperator "|") then
    discard advance
    return []
  let token ← advance
  match token.lexeme with
  | .identifier name | .label name => return name :: (← parse .blockNames)
  | .operator op =>
    match (← peek).lexeme with
    | .identifier name =>
      if ["*", "**", "&"].contains op then
        discard advance
        return name :: (← parse .blockNames)
      else complainAt .blockParameter token
    | _ => complainAt .blockParameter token
  | .comma | .opening .round | .closing .round => parse .blockNames
  | _ => complainAt .blockParameter token

/-- The parameters of a block, declared when all of them are read. -/
def blockParams : Parser (List String) := do
  match (← peek).lexeme.operator? with
  | some "||" =>
    discard advance
    return []
  | some "|" =>
    discard advance
    let names ← parse .blockNames
    names.forM declare
    return names
  | _ => return []

def bodyWords : List String :=
  ["rescue", "else", "ensure", "end"]

/-- A body with its rescue, else and ensure clauses. Without any, or with an empty ensure clause alone, it is
the plain list of statements. -/
def body (start : Position) : Parser (List Node) := do
  let statements ← parse (.statements ⟨bodyWords, none⟩)
  let rescues ← parse .rescues
  let mut elseBody := []
  if !rescues.isEmpty && (← checkWord "else") then
    discard advance
    elseBody ← parse (.statements ⟨["ensure", "end"], none⟩)
  let mut ensureBody := []
  if ← checkWord "ensure" then
    discard advance
    ensureBody ← parse (.statements ⟨["end"], none⟩)
  if rescues.isEmpty && ensureBody.isEmpty then return statements
  else return [.guarded start statements rescues elseBody ensureBody]

def endsExceptions (lexeme : Lexeme Token) : Bool :=
  lexeme.isSeparator || lexeme.isArrow || lexeme.isKeyword "then"

/-- The exception classes of a rescue clause. -/
def exceptions : Parser (List Node) := do
  if ← check endsExceptions then return []
  let first ← parse .choice
  if ← check Lexeme.isComma then
    discard advance
    return first :: (← parse .exceptions)
  else return [first]

def rescueClause : Parser Node := do
  let start ← advance
  let classes ← parse .exceptions
  let mut binder := none
  if ← check Lexeme.isArrow then
    discard advance
    let name ← consumeIdentifier .expectedRescueVariable
    declare name
    binder := some name
  skipWord "then"
  return .rescueClause start.pos classes binder (← parse (.statements ⟨bodyWords, none⟩))

def rescues : Parser (List Node) := do
  if ← checkWord "rescue" then
    let clause ← rescueClause parse
    return clause :: (← parse .rescues)
  else return []

def braceBlock : Parser Node := do
  let start ← advance
  inScope false <| enclosed do
    let params ← blockParams parse
    let statements ← parse (.statements ⟨[], some .curly⟩)
    consume (·.isClosing .curly) .openBlock
    return .block start.pos params statements true

def doBlock : Parser Node := do
  let start ← advance
  inScope false <| enclosed do
    let params ← blockParams parse
    let statements ← body parse start.pos
    consumeWord "end"
    return .block start.pos params statements false

/-- The block of a call, if one follows and belongs to it. -/
def blockOption : Parser (Option Node) := do
  let lexeme := (← peek).lexeme
  if lexeme.isOpening .curly then return some (← braceBlock parse)
  else if lexeme.isKeyword "do" && (← get).barred = 0 then return some (← doBlock parse)
  else return none

/-! Calls -/

/-- The arguments and the block after a method name. -/
def callRest (name : String) (receiver : Option Node) (pos : Position) : Parser Node := do
  let parens ← atCallParen
  let args ←
    if parens then do
      discard advance
      delimitedArguments parse .round
    else if ← atArgument then commandArguments parse
    else pure []
  return .call pos name receiver args (← blockOption parse) parens

def methodName? : Lexeme Token → Option String
  | .identifier name | .constant name | .keyword name => some name
  | _ => none

/-- What follows two colons: a constant, or a method if the name is in small letters or has arguments. -/
def colonTrailer (base : Node) : Parser Node := do
  let token ← advance
  let called ← atCallParen
  match token.lexeme with
  | .constant name =>
    if called then callRest parse name (some base) base.pos
    else return .constPath base.pos (some base) name
  | .identifier name => callRest parse name (some base) base.pos
  | _ => complainAt .expectedConstantOrMethod token

/-- The method calls, constant paths and indexes that follow an operand. -/
def trailers (base : Node) : Parser Node := do
  let token ← peek
  if token.lexeme.isDot then
    discard advance
    skipNewlines
    let name ← advance
    match methodName? name.lexeme with
    | some word => parse (.trailers (← callRest parse word (some base) base.pos))
    | none => complainAt .expectedMethodName name
  else if token.lexeme.isDoubleColon then
    discard advance
    parse (.trailers (← colonTrailer parse base))
  else if token.lexeme.isOpening .square && !token.spaced then
    discard advance
    let args ← delimitedArguments parse .square
    parse (.trailers (.index base.pos base args))
  else return base

end Formulary.Grammar
