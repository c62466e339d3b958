import Formulary.Text.Case
import Formulary.Text.Numeral
import Formulary.Text.Quoted

/-! The values of number literals, whose digits may come from any decimal script. -/

namespace Formulary.Text

/-- A text that spells no number of the kind it was read as. Base 0 means the base its prefix names. -/
inductive NumberFault where
  | integer (base : Nat) (text : String)
  | float (text : String)
deriving DecidableEq

def NumberFault.message : NumberFault → String
  | .integer base text =>
    s!"invalid literal for int() with base {base}: " ++ String.ofList ((quoted text).toList.take 200)
  | .float text => "could not convert string to float: " ++ quoted text

/-- The value of a digit in bases up to sixteen. -/
def digitValue? (c : Char) : Option Nat :=
  if 'a' ≤ c ∧ c ≤ 'f' then some (c.toNat - 'a'.toNat + 10)
  else if 'A' ≤ c ∧ c ≤ 'F' then some (c.toNat - 'A'.toNat + 10)
  else decimalValue? c

/-- The value of a digit string, most significant digit first, after a value already read. -/
def positional? (base value : Nat) : List Char → Option Nat
  | [] => some value
  | c :: rest => do
    let digit ← digitValue? c
    if digit < base then positional? base (value * base + digit) rest else none

def natural? (base : Nat) (digits : List Char) : Option Nat :=
  if digits.isEmpty then none else positional? base 0 digits

def basePrefix? : List Char → Option (Nat × List Char)
  | '0' :: 'x' :: digits => some (16, digits)
  | '0' :: 'o' :: digits => some (8, digits)
  | '0' :: 'b' :: digits => some (2, digits)
  | _ => none

/-- An integer literal: a base prefix in either case, a leading zero for octal, else decimal. -/
def integerLiteral (text : String) : Except NumberFault Nat :=
  let lowered := lower text
  match basePrefix? lowered.toList with
  | some (base, digits) => (natural? base digits).elim (.error (.integer 0 lowered)) .ok
  | none =>
    let base := if text.toList.length > 1 ∧ text.toList.head? = some '0' then 8 else 10
    (natural? base text.toList).elim (.error (.integer base text)) .ok

/-- Digits with an optional fraction and an optional signed power of ten. -/
structure Decimal where
  whole : List Char
  fraction : List Char
  negativePower : Bool
  power : List Char

def isPowerMark (c : Char) : Bool :=
  c = 'e' || c = 'E'

def Decimal.ofChars (text : List Char) : Decimal :=
  let mantissa := text.takeWhile (!isPowerMark ·)
  let power := (text.dropWhile (!isPowerMark ·)).drop 1
  { whole := mantissa.takeWhile (· ≠ '.')
    fraction := (mantissa.dropWhile (· ≠ '.')).drop 1
    negativePower := power.head? = some '-'
    power := if power.head? = some '-' ∨ power.head? = some '+' then power.drop 1 else power }

/-- The nearest binary64 number to `mantissa` times ten to the `power`. Powers beyond the range of the format
are settled by the length of the mantissa, so that no huge power is ever computed. -/
def nearestFloat (mantissa : Nat) (power : Int) : Float :=
  let places : Int := (Nat.toDigits 10 mantissa).length
  if mantissa = 0 then 0.0
  else if places + power > 400 then 1.0 / 0.0
  else if places + power < -400 then 0.0
  else Float.ofScientific mantissa (power < 0) power.natAbs

def floatLiteral (text : String) : Except NumberFault Float :=
  let decimal := Decimal.ofChars text.toList
  let value := do
    let mantissa ← natural? 10 (decimal.whole ++ decimal.fraction)
    let power ← if decimal.power.isEmpty then some 0 else natural? 10 decimal.power
    let power : Int := if decimal.negativePower then -power else power
    return nearestFloat mantissa (power - decimal.fraction.length)
  value.elim (.error (.float text)) .ok

end Formulary.Text
