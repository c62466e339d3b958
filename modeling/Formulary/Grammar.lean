import Formulary.Grammar.Operator
import Formulary.Grammar.Primary
import Formulary.Token.Scan

/-!
From tokens to a syntax tree. `Grammar.step` gives every rule its parser in terms of all rules, and
`Grammar.rule` unrolls it often enough for the tokens at hand: between two tokens fewer than sixteen rules
call one another.
-/

namespace Formulary

namespace Grammar

def step (parse : Rules) : Rules := fun _ rule =>
  match rule with
  | .statements stop => statements parse stop
  | .statement => statement parse
  | .modifiers node => modifiers parse node
  | .connective => connective parse
  | .connectiveRest left => connectiveRest parse left
  | .negation => negation parse
  | .expression => expression parse
  | .choice => choice parse
  | .binary least => binary parse least
  | .binaryRest least left => binaryRest parse least left
  | .unary => unary parse
  | .operand => operand parse
  | .trailers base => trailers parse base
  | .arguments closer named => arguments parse closer named
  | .adjacent => adjacent parse
  | .code tokens pos => embedded parse tokens pos
  | .pairs => pairs parse
  | .blockNames => blockNames parse
  | .params parenthesized => params parse parenthesized
  | .branch => branch parse
  | .whens => whens parse
  | .rescues => rescues parse
  | .exceptions => exceptions parse
  | .targets => targets parse
  | .constantNames => constantNames parse

/-- Every rule, with calls at most `fuel` deep. -/
def rule : Nat → Rules
  | 0 => fun _ _ => do malformed .tooDeep (← peek).pos
  | fuel + 1 => step (rule fuel)

def enoughFuel (tokens : List Token) : Nat :=
  16 * (tokensWeight tokens + 2)

def start (tokens : List Token) : State :=
  { ahead := tokens.dropLast
    final := tokens.getLast?.getD ⟨.endOfText, .origin, true⟩
    scopes := [⟨true, []⟩]
    barred := 0 }

def program (parse : Rules) : Parser Node := do
  let statements ← parse (.statements {})
  if !(← atStop {}) then complain .unexpected
  return .program .origin statements

/-- The syntax tree of a token list that ends with the end of the text. -/
def ofTokens (tokens : List Token) : Except ReadError Node :=
  ((program (rule (enoughFuel tokens))).run (start tokens)).map (·.1)

end Grammar

/-- The syntax tree of a recipe's text. -/
def parseRecipe (text : List Char) : Except ReadError Node :=
  match tokenize text .origin with
  | .ok tokens => Grammar.ofTokens tokens
  | .error error => .error (.malformed error)

end Formulary
