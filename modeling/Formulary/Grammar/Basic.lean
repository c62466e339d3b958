import Formulary.Malformed
import Formulary.Syntax

/-!
The ground of the grammar: parsers over a list of tokens, and the rules that refer to one another. A parser
for a construct takes a parser for all rules as an argument, so that the recursion is tied in one place.
-/

namespace Formulary

/-- The names declared in a scope. A hard scope hides the names of all scopes around it. -/
structure Scope where
  hard : Bool
  names : List String
deriving DecidableEq, Repr

namespace Scope

def isLocal (name : String) : List Scope → Bool
  | [] => false
  | scope :: outer => scope.names.contains name || (!scope.hard && isLocal name outer)

/-- The scopes after a name was declared in the innermost one. -/
def declare (name : String) : List Scope → List Scope
  | [] => []
  | scope :: outer => { scope with names := name :: scope.names } :: outer

end Scope

namespace Grammar

structure State where
  /-- The tokens not read yet, without the one that stands for the end. -/
  ahead : List Token
  final : Token
  /-- The open scopes, innermost first. -/
  scopes : List Scope
  /-- How many argument lists and loop heads around this point leave `do` to something outside them. -/
  barred : Nat

abbrev Parser := StateT State (Except ReadError)

/-- What ends a list of statements, besides the end of the tokens. -/
structure Stop where
  words : List String := []
  closer : Option Bracket := none

/-- The rules of the grammar, with what each of them reads. -/
inductive Rule : Type → Type where
  | statements (stop : Stop) : Rule (List Node)
  | statement : Rule Node
  | modifiers (statement : Node) : Rule Node
  | connective : Rule Node
  | connectiveRest (left : Node) : Rule Node
  | negation : Rule Node
  | expression : Rule Node
  | choice : Rule Node
  | binary (least : Nat) : Rule Node
  | binaryRest (least : Nat) (left : Node) : Rule Node
  | unary : Rule Node
  | operand : Rule Node
  | trailers (base : Node) : Rule Node
  | arguments (closer : Option Bracket) (named : Bool) : Rule (List Node × List (Node × Node))
  | adjacent : Rule (List (Piece Node))
  | code (tokens : List Token) (pos : Position) : Rule (Piece Node)
  | pairs : Rule (List (Node × Node))
  | blockNames : Rule (List String)
  | params (parenthesized : Bool) : Rule (List String)
  | branch : Rule Node
  | whens : Rule (List Node)
  | rescues : Rule (List Node)
  | exceptions : Rule (List Node)
  | targets : Rule (List String)
  | constantNames : Rule (List String)

/-- A parser for every rule. -/
abbrev Rules := ⦃α : Type⦄ → Rule α → Parser α

/-! Tokens -/

def peek : Parser Token := do
  let state ← get
  return state.ahead.headD state.final

/-- The token after the next one. -/
def peekSecond : Parser Token := do
  let state ← get
  return state.ahead.tail.headD state.final

/-- Reads a token; the end of the tokens is never passed. -/
def advance : Parser Token := do
  let token ← peek
  modify fun state => { state with ahead := state.ahead.tail }
  return token

def malformed {α : Type} (cause : Cause) (pos : Position) : Parser α :=
  throw (.malformed ⟨cause, pos⟩)

def complainAt {α : Type} (complaint : Complaint) (token : Token) : Parser α :=
  malformed (.token complaint token.lexeme) token.pos

/-- Fails at the next token. -/
def complain {α : Type} (complaint : Complaint) : Parser α := do
  complainAt complaint (← peek)

def check (test : Lexeme Token → Bool) : Parser Bool := do
  return test (← peek).lexeme

def checkWord (word : String) : Parser Bool :=
  check (·.isKeyword word)

def consume (test : Lexeme Token → Bool) (complaint : Complaint) : Parser Unit := do
  if ← check test then discard advance else complain complaint

def consumeWord (word : String) : Parser Unit :=
  consume (·.isKeyword word) (.expectedKeyword word)

/-- Reads a keyword if it comes next. -/
def skipWord (word : String) : Parser Unit := do
  if ← checkWord word then discard advance

def consumeIdentifier (complaint : Complaint) : Parser String := do
  match (← peek).lexeme with
  | .identifier name => discard advance; return name
  | _ => complain complaint

def consumeConstant (complaint : Complaint) : Parser String := do
  match (← peek).lexeme with
  | .constant name => discard advance; return name
  | _ => complain complaint

def skipWhile (test : Lexeme Token → Bool) : Parser Unit :=
  modify fun state => { state with ahead := state.ahead.dropWhile (test ·.lexeme) }

def skipNewlines : Parser Unit :=
  skipWhile Lexeme.isNewline

def skipSeparators : Parser Unit :=
  skipWhile Lexeme.isSeparator

def Stop.meets (stop : Stop) (lexeme : Lexeme Token) : Bool :=
  match lexeme with
  | .endOfText => true
  | .closing bracket => stop.closer = some bracket
  | .keyword word => stop.words.contains word
  | _ => false

def atStop (stop : Stop) : Parser Bool :=
  check stop.meets

/-! Scopes and the place of `do` -/

def isLocal (name : String) : Parser Bool := do
  return Scope.isLocal name (← get).scopes

def declare (name : String) : Parser Unit :=
  modify fun state => { state with scopes := Scope.declare name state.scopes }

variable {α : Type}

/-- Runs a parser in a scope of its own. -/
def inScope (hard : Bool) (parser : Parser α) : Parser α := do
  modify fun state => { state with scopes := ⟨hard, []⟩ :: state.scopes }
  let result ← parser
  modify fun state => { state with scopes := state.scopes.tail }
  return result

/-- Runs a parser between delimiters, where `do` belongs to the nearest call again. -/
def enclosed (parser : Parser α) : Parser α := do
  let outer := (← get).barred
  modify fun state => { state with barred := 0 }
  let result ← parser
  modify fun state => { state with barred := outer }
  return result

/-- Runs a parser that leaves `do` to something outside. -/
def leavingDo (parser : Parser α) : Parser α := do
  modify fun state => { state with barred := state.barred + 1 }
  let result ← parser
  modify fun state => { state with barred := state.barred - 1 }
  return result

/-! What may come next -/

/-- The words that are values by themselves. -/
def valueWords : List String :=
  ["nil", "true", "false", "self", "__FILE__"]

def beginsArgument : Lexeme Token → Bool
  | .string _ | .shell _ | .integer _ | .float _ | .symbol _ | .words _ | .symbols _ | .regexp _ _ => true
  | .identifier _ | .constant _ | .instanceVar _ | .globalVar _ | .label _ => true
  | .opening bracket => bracket ≠ .curly
  | .keyword word => valueWords.contains word || word = "not"
  | _ => false

/-- A sign that is an argument's first token only if nothing stands between it and the next token. -/
def bindsArgument : Lexeme Token → Bool
  | .doubleColon => true
  | .operator spelling => ["-", "*", "**", "&", "!", "~"].contains spelling
  | _ => false

/-- Whether the next token begins an argument of a call without parentheses. -/
def atArgument : Parser Bool := do
  let token ← peek
  let second ← peekSecond
  return token.spaced &&
    (beginsArgument token.lexeme || (bindsArgument token.lexeme && !second.spaced && !second.lexeme.isNewline))

/-- Whether the next token is an opening parenthesis that belongs to the name before it. -/
def atCallParen : Parser Bool := do
  let token ← peek
  return token.lexeme.isOpening .round && !token.spaced

end Grammar

end Formulary
