import Formulary.Text.Numeral
import Formulary.Token.Literal

/-! Literals that a percent sign opens, with delimiters of the writer's choice. -/

namespace Formulary

/-- What a percent sign opens: the letter that says what kind, how long the opening is, and the delimiters. -/
structure Percent where
  kind : Char
  opening : Nat
  marks : Literal.Delimiters

namespace Percent

def closingOf (delimiter : Char) : Option Char × Char :=
  match delimiter with
  | '(' => (some '(', ')')
  | '[' => (some '[', ']')
  | '\x7b' => (some '\x7b', '\x7d')
  | '<' => (some '<', '>')
  | c => (none, c)

def kinds : List Char :=
  ['w', 'W', 'i', 'I', 'q', 'Q', 'r']

def embedsCode (kind : Char) : Bool :=
  ['Q', 'W', 'I', 'r'].contains kind

/-- The opening of a percent literal, given what follows the sign. -/
def read? (text : List Char) : Option Percent := do
  let first ← text.head?
  let named := kinds.contains first
  let delimiter ← if named then text.tail.head? else some first
  if Text.isAlphanumeric delimiter || [' ', '\t', '\n', '='].contains delimiter then none
  else
    let kind := if named then first else 'Q'
    let (opener, closer) := closingOf delimiter
    return ⟨kind, if named then 3 else 2, ⟨opener, closer, embedsCode kind⟩⟩

end Percent

end Formulary
