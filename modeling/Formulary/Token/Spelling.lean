import Formulary.Text.Number
import Formulary.Token
import Formulary.Token.Gap

/-! The spellings of tokens that hold no other text: numbers, words, variables, operators and signs. -/

namespace Formulary.Spelling

open Gap (startsWith)

def isNameChar (c : Char) : Bool :=
  Text.isAlphanumeric c || c = '_'

def isDigitChar (c : Char) : Bool :=
  Text.isDigit c || c = '_'

def withoutUnderscores (text : List Char) : String :=
  String.ofList (text.filter (· ≠ '_'))

def isBaseMark (c : Char) : Bool :=
  ['x', 'X', 'b', 'B', 'o', 'O'].contains c

def beginsWithDigit (text : List Char) : Bool :=
  text.head?.any Text.isDigit

/-- The point and the digits of a fraction, if a digit follows the point. -/
def fractionPart : List Char → List Char
  | '.' :: rest => if beginsWithDigit rest then '.' :: rest.takeWhile isDigitChar else []
  | _ => []

/-- The power of ten, if a digit follows its mark and sign. -/
def powerPart : List Char → List Char
  | c :: rest =>
    if Text.isPowerMark c then
      match rest with
      | s :: digits =>
        if s = '+' ∨ s = '-' then
          if beginsWithDigit digits then c :: s :: digits.takeWhile isDigitChar else []
        else if Text.isDigit s then c :: rest.takeWhile isDigitChar
        else []
      | [] => []
    else []
  | [] => []

def decimalNumber (text : List Char) : Lexeme Token × List Char :=
  let whole := text.takeWhile isDigitChar
  let fraction := fractionPart (text.drop whole.length)
  let power := powerPart (text.drop (whole.length + fraction.length))
  let spelling := whole ++ fraction ++ power
  let digits := withoutUnderscores spelling
  (if fraction.isEmpty && power.isEmpty then .integer digits else .float digits, text.drop spelling.length)

def number (text : List Char) : Lexeme Token × List Char :=
  match text with
  | '0' :: mark :: rest =>
    if isBaseMark mark then
      (.integer (withoutUnderscores ('0' :: mark :: rest.takeWhile isNameChar)), rest.dropWhile isNameChar)
    else decimalNumber text
  | _ => decimalNumber text

/-- A word with the question or exclamation mark that belongs to it; the mark of `a?=b` does not. -/
def wordLength (text : List Char) : Nat :=
  let length := (text.takeWhile isNameChar).length
  match text.drop length with
  | mark :: rest =>
    if (mark = '?' ∨ mark = '!') ∧ (rest.head? ≠ some '=' ∨ rest.tail.head? = some '=') then length + 1
    else length
  | [] => length

/-- A label, keyword, constant or identifier. After a dot or `def` every word is a name, and after the `?` of a
choice a colon ends no label. -/
def word (last : Option (Lexeme Token)) (text : List Char) : Lexeme Token × List Char :=
  let length := wordLength text
  let name := String.ofList (text.take length)
  let rest := text.drop length
  let forced := last.any fun l => l.isDot || l.isKeyword "def"
  if rest.head? = some ':' ∧ rest.tail.head? ≠ some ':' ∧ !(last.any Lexeme.isQuestion) then
    (.label name, rest.tail)
  else if Lexeme.keywords.contains name && !forced then (.keyword name, rest)
  else if text.head?.any Text.isUpper then (.constant name, rest)
  else (.identifier name, rest)

/-- An assignment sign belongs to a symbol unless it begins another operator. -/
def symbolLength (text : List Char) : Nat :=
  let length := (text.takeWhile isNameChar).length
  match text.drop length with
  | mark :: rest =>
    if mark = '?' ∨ mark = '!' ∨ (mark = '=' ∧ !(rest.head?.any fun c => c = '=' || c = '~' || c = '>')) then
      length + 1
    else length
  | [] => length

def operators : List String :=
  ["**=", "<=>", "===", "...", "<<=", ">>=", "&&=", "||=", "**", "==", "!=", ">=", "<=", "&&", "||",
   "<<", ">>", "=~", "!~", "..", "+=", "-=", "*=", "/=", "%=", "|=", "&=", "^=", "->", "+", "-", "*",
   "/", "%", "=", "<", ">", "!", "&", "|", "^", "~"]

def punctuation? (c : Char) : Option (Lexeme Token) :=
  match c with
  | '(' => some (.opening .round)
  | ')' => some (.closing .round)
  | '[' => some (.opening .square)
  | ']' => some (.closing .square)
  | '\x7b' => some (.opening .curly)
  | '\x7d' => some (.closing .curly)
  | ',' => some .comma
  | '.' => some .dot
  | ';' => some .semicolon
  | '?' => some .question
  | _ => none

/-- The longest operator or the sign at the start of a text. -/
def sign (text : List Char) : Option (Lexeme Token × List Char) :=
  if startsWith text "=>" then some (.arrow, text.drop 2)
  else if startsWith text "&." && !startsWith text "&.." then some (.safeDot, text.drop 2)
  else match operators.find? (startsWith text ·) with
    | some op => some (.operator op, text.drop op.length)
    | none => text.head?.bind fun c => (punctuation? c).map fun lexeme => (lexeme, text.tail)

def instanceName (text : List Char) : Option (Lexeme Token × List Char) :=
  let (sigil, rest) := match text with
    | '@' :: rest => ("@@", rest)
    | rest => ("@", rest)
  let name := rest.takeWhile isNameChar
  if name.isEmpty then none
  else some (.instanceVar (sigil ++ String.ofList name), rest.dropWhile isNameChar)

def globalName (text : List Char) : Option (Lexeme Token × List Char) :=
  let name := text.takeWhile isNameChar
  if name.isEmpty then text.head?.map fun c => (.globalVar ("$" ++ String.ofList [c]), text.tail)
  else some (.globalVar ("$" ++ String.ofList name), text.dropWhile isNameChar)

end Formulary.Spelling
