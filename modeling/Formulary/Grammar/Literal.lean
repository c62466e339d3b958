import Formulary.Grammar.Call

/-! Strings, with the code in them, and hashes. -/

namespace Formulary.Grammar

/-- Code in a string, read with the scopes around the string and tokens of its own. -/
def embedded (parse : Rules) (tokens : List Token) (pos : Position) : Parser (Piece Node) := do
  let outer ← get
  let final := tokens.getLast?.getD ⟨.endOfText, pos, true⟩
  set { outer with ahead := tokens.dropLast, final, barred := 0 }
  let statements ← parse (.statements {})
  if !(← atStop {}) then complain .unexpectedInCode
  modify fun inner => { outer with scopes := inner.scopes }
  return .code pos statements

/-- The texts of adjacent pieces joined, and empty texts left out. -/
def joinTexts : List (Piece Node) → List (Piece Node)
  | [] => []
  | .code pos statements :: rest => .code pos statements :: joinTexts rest
  | .text value :: rest =>
    if value.isEmpty then joinTexts rest
    else match joinTexts rest with
      | .text more :: others => .text (value ++ more) :: others
      | others => .text value :: others

/-- The pieces of a string in normal form: no empty text but a lone one, and no two texts side by side. -/
def normalPieces (pieces : List (Piece Node)) : List (Piece Node) :=
  if (joinTexts pieces).isEmpty then pieces.take 1 else joinTexts pieces

variable (parse : Rules)

def pieces (segments : List (Segment Token)) : Parser (List (Piece Node)) :=
  segments.mapM fun segment => match segment with
    | .text value => return .text value
    | .code tokens pos => parse (.code tokens pos)

/-- The pieces of the strings that follow a string with a blank between. -/
def adjacent : Parser (List (Piece Node)) := do
  let token ← peek
  match token.lexeme with
  | .string segments =>
    if token.spaced then
      discard advance
      let first ← pieces parse segments
      return first ++ (← parse .adjacent)
    else return []
  | _ => return []

def stringLiteral (pos : Position) (segments : List (Segment Token)) : Parser Node := do
  let first ← pieces parse segments
  return .string pos (normalPieces (first ++ (← parse .adjacent)))

def hashKey : Parser Node := do
  let token ← peek
  match token.lexeme with
  | .label name =>
    discard advance
    skipNewlines
    return .symbol token.pos name
  | _ =>
    let key ← parse .expression
    skipNewlines
    consume Lexeme.isArrow .expectedArrow
    skipNewlines
    return key

def pairs : Parser (List (Node × Node)) := do
  if ← check (·.isClosing .curly) then return []
  let key ← hashKey parse
  let value ← parse .expression
  skipNewlines
  if ← check Lexeme.isComma then
    discard advance
    skipNewlines
    return (key, value) :: (← parse .pairs)
  else return [(key, value)]

def hash : Parser Node := do
  let start ← advance
  enclosed do
    skipNewlines
    let found ← parse .pairs
    consume (·.isClosing .curly) .openHash
    return .hash start.pos found true

end Formulary.Grammar
