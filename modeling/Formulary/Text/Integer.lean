import Formulary.Text.Blank
import Formulary.Text.Number

/-!
Integers as people write them, with white space around them, a plus sign, zeros in front, underscores between the
digits or a fraction of zeros. Each of these is taken away in turn; what is left must be a plain integer.
-/

namespace Formulary.Text

/-- Digits without zeros in front, except for zero itself. -/
def plainNatural? (digits : List Char) : Option Nat :=
  if digits.all Char.isDigit && (digits = ['0'] || digits.head? ≠ some '0') then natural? 10 digits else none

def plainInteger? : List Char → Option Int
  | '-' :: digits => (plainNatural? digits).map fun size => -(size : Int)
  | digits => (plainNatural? digits).map fun size => (size : Int)

/-- Zeros at the start go, and underscores among them, up to the first other character; a digit or a minus sign may
follow. If none of the number is left in front of a point or of the end, the last character that went is kept. -/
def withoutLeadingZeros (text : List Char) : List Char :=
  if text.head? = some '0' then
    let rest := text.dropWhile fun c => c = '0' || c = '_'
    if rest.isEmpty || rest.head? = some '.' then text.drop (text.length - rest.length - 1) else rest
  else text

/-- A point goes together with the zeros after it; without any zeros it stays. -/
def withoutZeroFraction (text : List Char) : List Char :=
  let whole := text.takeWhile (· ≠ '.')
  let fraction := text.drop (whole.length + 1)
  if !fraction.isEmpty && fraction.all (· = '0') then whole else text

/-- Underscores go if each of them stands alone between two other characters. -/
def withoutUnderscores (text : List Char) : List Char :=
  if text.head? = some '_' || text.getLast? = some '_' || (text.zip text.tail).contains ('_', '_') then text
  else text.filter (· ≠ '_')

/-- A plus sign goes, unless a minus sign comes next. -/
def withoutPlus? : List Char → Option (List Char)
  | '+' :: '-' :: _ => none
  | '+' :: rest => some rest
  | text => some text

def spelledInteger? (text : String) : Option Int :=
  (withoutPlus? (trim isWhiteSpace text.toList)).bind fun spelled =>
    plainInteger? (withoutUnderscores (withoutZeroFraction (withoutLeadingZeros spelled)))

end Formulary.Text
