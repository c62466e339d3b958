import Formulary.Text.Blank

/-! Strings whose bodies are the lines after the one that opens them. -/

namespace Formulary.Heredoc

/-- What is done about indentation: nothing, only the last line may be indented, or the margin goes. -/
inductive Margin where
  | flush
  | indented
  | trimmed
deriving DecidableEq, Repr

structure Opener where
  name : String
  margin : Margin
  embeds : Bool

def isNameStart (c : Char) : Bool :=
  c.isAlpha || c = '_'

def isNamePart (c : Char) : Bool :=
  c.isAlphanum || c = '_'

def readMargin : List Char → Margin × List Char
  | '~' :: rest => (.trimmed, rest)
  | '-' :: rest => (.indented, rest)
  | rest => (.flush, rest)

def readQuote : List Char → Option Char × List Char
  | '"' :: rest => (some '"', rest)
  | '\'' :: rest => (some '\'', rest)
  | rest => (none, rest)

/-- The opener at the start of a text and what follows it. Without margin sign and quotes, only a name that
begins with a capital opens a heredoc. -/
def readOpener : List Char → Option (Opener × List Char)
  | '<' :: '<' :: rest =>
    let (margin, rest) := readMargin rest
    let (quote, rest) := readQuote rest
    let name := if rest.head?.any isNameStart then rest.takeWhile isNamePart else []
    let after := rest.drop name.length
    let opener : Opener := ⟨String.ofList name, margin, quote ≠ some '\''⟩
    match name with
    | [] => none
    | first :: _ =>
      match quote with
      | some q => if after.head? = some q then some (opener, after.tail) else none
      | none => if margin ≠ .flush ∨ first.isUpper then some (opener, after) else none
  | _ => none

def dropTrailing (c : Char) (text : List Char) : List Char :=
  (text.reverse.dropWhile (· = c)).reverse

/-- Whether a line ends the body. -/
def Opener.closedBy (opener : Opener) (line : List Char) : Bool :=
  let line := dropTrailing '\r' line
  let line := if opener.margin = .flush then line else Text.strip line
  line = opener.name.toList

/-- The lines of the body, each with its newline, and what follows the line that ends it. `line` is the part
of the current line already read, in reverse. -/
def takeBody (opener : Opener) (line : List Char) : List Char → Option (List (List Char) × List Char)
  | [] => if opener.closedBy line.reverse then some ([], []) else none
  | c :: rest =>
    if c = '\n' then
      if opener.closedBy line.reverse then some ([], rest)
      else (takeBody opener [] rest).map fun (lines, after) => ((line.reverse ++ ['\n']) :: lines, after)
    else takeBody opener (c :: line) rest

def isMargin (c : Char) : Bool :=
  c = ' ' || c = '\t'

def marginWidth (line : List Char) : Nat :=
  (line.takeWhile isMargin).length

/-- The lines without their common margin, which is the least one of the lines that are not blank. Blank
lines lose all of theirs. -/
def dedent (lines : List (List Char)) : List (List Char) :=
  match ((lines.filter (!Text.isBlankText ·)).map marginWidth).min? with
  | none => lines
  | some width =>
    lines.map fun line => if Text.isBlankText line then line.dropWhile isMargin else line.drop width

def Opener.bodyText (opener : Opener) (lines : List (List Char)) : List Char :=
  (if opener.margin = .trimmed then dedent lines else lines).flatten

end Formulary.Heredoc
