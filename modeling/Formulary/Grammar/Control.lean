import Formulary.Grammar.Call

/-! Constructs that a keyword begins: tests, loops, jumps and definitions. -/

namespace Formulary.Grammar

variable (parse : Rules)

def untilEnd : Stop :=
  ⟨["end"], none⟩

/-- An else clause, if one comes next. -/
def elseClause : Parser (Option Node) := do
  let token ← peek
  if token.lexeme.isKeyword "else" then
    discard advance
    return some (.elseClause token.pos (← parse (.statements untilEnd)))
  else return none

def branchHead (word : Option String) : BranchHead :=
  match word with
  | some "unless" => .opening .negative
  | some "elsif" => .further
  | _ => .opening .positive

/-- A conditional block from its keyword on. A further test is a block in the place of the else clause, and the
last one reads the `end`. -/
def branch : Parser Node := do
  let token ← advance
  let head := branchHead token.lexeme.keyword?
  let cond ← parse .connective
  skipWord "then"
  let statements ← parse (.statements ⟨["elsif", "else", "end"], none⟩)
  if head.polarity = .positive && (← checkWord "elsif") then
    return .branch token.pos head cond statements (some (← parse .branch))
  else
    let orelse ← elseClause parse
    consumeWord "end"
    return .branch token.pos head cond statements orelse

/-- The body of a loop, from the keyword `do` or what stands for it on. -/
def loopBody : Parser (List Node) := do
  skipWord "do"
  let statements ← parse (.statements untilEnd)
  consumeWord "end"
  return statements

def loop (polarity : Polarity) : Parser Node := do
  let token ← advance
  let cond ← leavingDo (parse .connective)
  return .loop token.pos polarity cond (← loopBody parse) false

def targets : Parser (List String) := do
  let name ← consumeIdentifier .expectedLoopVariable
  if ← check Lexeme.isComma then
    discard advance
    return name :: (← parse .targets)
  else return [name]

def forLoop : Parser Node := do
  let token ← advance
  let names ← parse .targets
  names.forM declare
  consumeWord "in"
  let iterable ← leavingDo (parse .connective)
  return .forLoop token.pos names iterable (← loopBody parse)

def whens : Parser (List Node) := do
  let token ← peek
  if token.lexeme.isKeyword "when" then
    discard advance
    let values ← argumentList parse none
    skipWord "then"
    let statements ← parse (.statements ⟨["when", "else", "end"], none⟩)
    return .whenClause token.pos values statements :: (← parse .whens)
  else return []

def caseOf : Parser Node := do
  let token ← advance
  let subject ← if ← check Lexeme.isSeparator then pure none else some <$> parse .connective
  skipSeparators
  let clauses ← parse .whens
  if clauses.isEmpty then complain .expectedWhen
  let orelse ← elseClause parse
  consumeWord "end"
  return .caseOf token.pos subject clauses orelse

def beginBlock : Parser Node := do
  let token ← advance
  let statements ← body parse token.pos
  consumeWord "end"
  match statements with
  | [.guarded pos inner rescues elseBody ensureBody] => return .guarded pos inner rescues elseBody ensureBody
  | _ => return .guarded token.pos statements [] [] []

def jump (word : String) : Parser Node := do
  let token ← advance
  let value ← if ← atArgument then some <$> parse .expression else pure none
  return .jump token.pos word value

def keywordCall (word : String) : Parser Node := do
  let token ← advance
  let args ←
    if ← atCallParen then do
      discard advance
      delimitedArguments parse .round
    else if ← atArgument then commandArguments parse
    else pure []
  return .keywordCall token.pos word args

/-! Definitions -/

/-- Whether a token is written `self`, as a word, symbol or label. -/
def spellsSelf : Lexeme Token → Bool
  | .identifier name | .keyword name | .symbol name | .label name => name = "self"
  | _ => false

def definedName? : Lexeme Token → Option String
  | .identifier name | .constant name | .keyword name | .operator name => some name
  | _ => none

def endsParams (parenthesized : Bool) (lexeme : Lexeme Token) : Bool :=
  if parenthesized then lexeme.isClosing .round else lexeme.isSeparator

def endsParameter : Lexeme Token → Bool
  | .comma | .closing .round | .newline => true
  | _ => false

/-- The parameters of a method, each declared when it is read; default values are read and dropped. -/
def params (parenthesized : Bool) : Parser (List String) := do
  if ← check (endsParams parenthesized) then
    if parenthesized then discard advance
    return []
  let token ← advance
  match token.lexeme with
  | .identifier name =>
    declare name
    if ← check (·.isOperator "=") then
      discard advance
      discard (parse .choice)
    return name :: (← parse (.params parenthesized))
  | .label name =>
    declare name
    if !(← check endsParameter) then discard (parse .choice)
    return name :: (← parse (.params parenthesized))
  | .operator op =>
    if ["*", "**", "&"].contains op then
      match (← peek).lexeme with
      | .identifier name =>
        discard advance
        declare name
        return name :: (← parse (.params parenthesized))
      | _ => parse (.params parenthesized)
    else complainAt .parameter token
  | .comma => parse (.params parenthesized)
  | _ => complainAt .parameter token

def methodParams : Parser (List String) := do
  let parenthesized ← check (·.isOpening .round)
  if parenthesized then discard advance
  parse (.params parenthesized)

/-- The name of a method that is being defined, and whether it is one of the class itself. -/
def methodHead : Parser (String × Bool) := do
  let first ← advance
  let singleton := spellsSelf first.lexeme && (← check Lexeme.isPlainDot)
  let token ← if singleton then do
      discard advance
      advance
    else pure first
  match definedName? token.lexeme with
  | none => complainAt .expectedMethodName token
  | some name =>
    let next ← peek
    if next.lexeme.isOperator "=" && !next.spaced then
      discard advance
      return (name ++ "=", singleton)
    else return (name, singleton)

def methodDef : Parser Node := do
  let token ← advance
  let (name, singleton) ← methodHead
  inScope true <| enclosed do
    let names ← methodParams parse
    let statements ← body parse token.pos
    consumeWord "end"
    return .methodDef token.pos name names statements singleton

def constantNames : Parser (List String) := do
  let name ← consumeConstant .expectedConstantName
  if ← check Lexeme.isDoubleColon then
    discard advance
    return name :: (← parse .constantNames)
  else return [name]

def constantName : Parser String := do
  return String.intercalate "::" (← parse .constantNames)

/-- The statements of a class or module and the `end` behind them. -/
def definitionBody : Parser (List Node) :=
  inScope true do
    let statements ← parse (.statements untilEnd)
    consumeWord "end"
    return statements

def classDef : Parser Node := do
  let token ← advance
  if ← check (·.isOperator "<<") then complain .singletonClass
  let name ← constantName parse
  let superclass ←
    if ← check (·.isOperator "<") then do
      discard advance
      some <$> parse .expression
    else pure none
  return .classDef token.pos name superclass (← definitionBody parse)

def moduleDef : Parser Node := do
  let token ← advance
  let name ← constantName parse
  return .moduleDef token.pos name (← definitionBody parse)

end Formulary.Grammar
