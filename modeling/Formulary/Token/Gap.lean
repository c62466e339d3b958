/-! What stands between tokens: blanks, newlines, comments and the mark behind which there is only data. -/

namespace Formulary.Gap

def isSpace (c : Char) : Bool :=
  c = ' ' || c = '\t' || c = '\r'

def startsWith (text : List Char) (word : String) : Bool :=
  word.toList.isPrefixOf text

/-- The line that ends the program text; what follows it is data. -/
def atDataMark (text : List Char) : Bool :=
  startsWith text "__END__" &&
    match text.drop 7 with
    | [] => true
    | c :: _ => c = '\n' || c = '\r'

/-- What follows a block comment, whose last line begins with `=end`. `fresh` says that a line begins here and
`ending` that it is the last line. -/
def afterBlockComment (fresh ending : Bool) : List Char → Option (List Char)
  | [] => if ending then some [] else none
  | c :: rest =>
    let ending := if fresh then startsWith (c :: rest) "=end" else ending
    if c = '\n' then (if ending then some rest else afterBlockComment true false rest)
    else afterBlockComment false ending rest

/-- The text from the next character on that is neither blank, newline nor comment. -/
def afterLayout (inComment : Bool) : List Char → List Char
  | [] => []
  | c :: rest =>
    if inComment then afterLayout (c ≠ '\n') rest
    else if isSpace c || c = '\n' then afterLayout false rest
    else if c = '#' then afterLayout true rest
    else c :: rest

/-- Whether the next line of code begins with a dot and so carries on the statement. -/
def continuesWithDot (text : List Char) : Bool :=
  let code := afterLayout false text
  startsWith code "&." || (startsWith code "." && !startsWith code "..")

end Formulary.Gap
