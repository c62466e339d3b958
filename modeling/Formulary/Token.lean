import Formulary.Position
import Formulary.Text.Quoted

/-! The tokens of a recipe. A string holds its text and, for each piece of embedded code, the tokens of that code. -/

namespace Formulary

inductive Bracket where
  | round
  | square
  | curly
deriving DecidableEq, Repr

/-- A part of a string literal over tokens of type `τ`. -/
inductive Segment (τ : Type) where
  | text (value : String)
  | code (tokens : List τ) (pos : Position)

inductive Lexeme (τ : Type) where
  | integer (digits : String)
  | float (digits : String)
  | string (segments : List (Segment τ))
  | shell (segments : List (Segment τ))
  | regexp (body flags : String)
  | symbol (name : String)
  | words (items : List String)
  | symbols (items : List String)
  | label (name : String)
  | identifier (name : String)
  | constant (name : String)
  | instanceVar (name : String)
  | globalVar (name : String)
  | keyword (name : String)
  | operator (spelling : String)
  | arrow
  | opening (bracket : Bracket)
  | closing (bracket : Bracket)
  | comma
  | dot
  | safeDot
  | doubleColon
  | question
  | colon
  | semicolon
  | newline
  | endOfText

structure Token where
  lexeme : Lexeme Token
  pos : Position
  /-- Whether a blank stands before the token. -/
  spaced : Bool

namespace Lexeme

variable {τ : Type}

/-- The words that are keywords wherever they are no method name. -/
def keywords : List String :=
  ["alias", "and", "begin", "break", "case", "class", "def", "do", "else", "elsif", "end", "ensure",
   "false", "for", "if", "in", "module", "next", "nil", "not", "or", "redo", "rescue", "retry",
   "return", "self", "super", "then", "true", "undef", "unless", "until", "when", "while", "yield",
   "__FILE__"]

/-- Whether an operand can end with this lexeme. -/
def endsValue : Lexeme τ → Bool
  | integer _ | float _ | string _ | shell _ | regexp _ _ | symbol _ | words _ | symbols _ => true
  | identifier _ | constant _ | instanceVar _ | globalVar _ | closing _ => true
  | keyword name => ["end", "self", "nil", "true", "false", "__FILE__"].contains name
  | _ => false

def isIdentifier : Lexeme τ → Bool
  | identifier _ => true
  | _ => false

/-- A dot of either kind, after which every word is a method name. -/
def isDot : Lexeme τ → Bool
  | dot | safeDot => true
  | _ => false

def isQuestion : Lexeme τ → Bool
  | question => true
  | _ => false

/-- A newline or a semicolon. -/
def isSeparator : Lexeme τ → Bool
  | newline | semicolon => true
  | _ => false

def isNewline : Lexeme τ → Bool
  | newline => true
  | _ => false

def isPlainDot : Lexeme τ → Bool
  | dot => true
  | _ => false

def isDoubleColon : Lexeme τ → Bool
  | doubleColon => true
  | _ => false

def isColon : Lexeme τ → Bool
  | colon => true
  | _ => false

def isArrow : Lexeme τ → Bool
  | arrow => true
  | _ => false

def isComma : Lexeme τ → Bool
  | comma => true
  | _ => false

def isKeyword (word : String) : Lexeme τ → Bool
  | keyword name => name = word
  | _ => false

def keyword? : Lexeme τ → Option String
  | keyword name => some name
  | _ => none

def operator? : Lexeme τ → Option String
  | operator spelling => some spelling
  | _ => none

def isOperator (spelling : String) (lexeme : Lexeme τ) : Bool :=
  lexeme.operator? = some spelling

def isOpening (bracket : Bracket) : Lexeme τ → Bool
  | opening b => b = bracket
  | _ => false

def isClosing (bracket : Bracket) : Lexeme τ → Bool
  | closing b => b = bracket
  | _ => false

def bracketName : Bracket → String
  | .round => "paren"
  | .square => "bracket"
  | .curly => "brace"

def openingSign : Bracket → String
  | .round => "("
  | .square => "["
  | .curly => "\x7b"

def closingSign : Bracket → String
  | .round => ")"
  | .square => "]"
  | .curly => "\x7d"

def quotedList (items : List String) : String :=
  "[" ++ Text.commaSeparated (items.map Text.quoted) ++ "]"

/-- The token as an error message names it: the kind and the quoted spelling, or a phrase for what has none. -/
def describe : Lexeme τ → String
  | integer digits => "integer " ++ Text.quoted digits
  | float digits => "float " ++ Text.quoted digits
  | string _ | shell _ => "string literal"
  | regexp body flags => "regexp (" ++ Text.commaSeparated [Text.quoted body, Text.quoted flags] ++ ")"
  | symbol name => "symbol " ++ Text.quoted name
  | words items => "words " ++ quotedList items
  | symbols items => "symbols " ++ quotedList items
  | label name => "label " ++ Text.quoted name
  | identifier name => "identifier " ++ Text.quoted name
  | constant name => "constant " ++ Text.quoted name
  | instanceVar name => "ivar " ++ Text.quoted name
  | globalVar name => "gvar " ++ Text.quoted name
  | keyword name => "keyword " ++ Text.quoted name
  | operator spelling => "operator " ++ Text.quoted spelling
  | arrow => "assoc '=>'"
  | opening b => "l" ++ bracketName b ++ " " ++ Text.quoted (openingSign b)
  | closing b => "r" ++ bracketName b ++ " " ++ Text.quoted (closingSign b)
  | comma => "comma ','"
  | dot => "dot '.'"
  | safeDot => "safe_nav '&.'"
  | doubleColon => "colon2 '::'"
  | question => "question '?'"
  | colon => "colon ':'"
  | semicolon => "semicolon ';'"
  | newline => "end of line"
  | endOfText => "end of file"

end Lexeme

mutual

/-- The number of tokens in a token, those of embedded code included, with one for each piece of code. -/
def Token.weight : Token → Nat
  | ⟨.string segments, _, _⟩ => 1 + segmentsWeight segments
  | ⟨.shell segments, _, _⟩ => 1 + segmentsWeight segments
  | _ => 1

def segmentsWeight : List (Segment Token) → Nat
  | [] => 0
  | segment :: rest => segmentWeight segment + segmentsWeight rest

def segmentWeight : Segment Token → Nat
  | .text _ => 0
  | .code tokens _ => 1 + tokensWeight tokens

def tokensWeight : List Token → Nat
  | [] => 0
  | token :: rest => token.weight + tokensWeight rest

end

end Formulary
