import Formulary.Entries
import Formulary.Text.Quoted

/-! What the arguments of a directive evaluate to. -/

namespace Formulary

inductive Scalar where
  | nil
  | bool (value : Bool)
  | int (value : Int)
  | string (text : String)
  | symbol (name : String)
deriving DecidableEq, Repr

/-- A scalar as far as hashes tell keys apart. -/
inductive Scalar.Key where
  | nil
  | number (value : Int)
  | text (value : String)
deriving DecidableEq, Repr

inductive Value where
  | scalar (value : Scalar)
  | list (items : List Value)
  | hash (entries : List (Scalar × Value))

namespace Scalar

/-- A truth value counts as zero or one, and a symbol as its name. -/
def key : Scalar → Key
  | nil => .nil
  | bool value => .number (if value then 1 else 0)
  | int value => .number value
  | string text => .text text
  | symbol name => .text name

/-- Two scalars are the same if they are the same key. -/
instance : BEq Scalar :=
  ⟨fun a b => a.key = b.key⟩

/-- The name of a symbol or the text of a string. -/
def text? : Scalar → Option String
  | string text => some text
  | symbol name => some name
  | _ => none

def plainText? : Scalar → Option String
  | string text => some text
  | _ => none

def symbol? : Scalar → Option String
  | symbol name => some name
  | _ => none

def display : Scalar → String
  | nil => "None"
  | bool value => if value then "True" else "False"
  | int value => toString value
  | string text => Text.quoted text
  | symbol name => ":" ++ name

end Scalar

namespace Value

def text? : Value → Option String
  | scalar value => value.text?
  | _ => none

def plainText? : Value → Option String
  | scalar value => value.plainText?
  | _ => none

def symbol? : Value → Option String
  | scalar value => value.symbol?
  | _ => none

def int? : Value → Option Int
  | scalar (.int value) => some value
  | _ => none

def isHash : Value → Bool
  | hash _ => true
  | _ => false

def isNil : Value → Bool
  | scalar .nil => true
  | _ => false

mutual

/-- The value as messages show it. -/
def display : Value → String
  | scalar value => value.display
  | list items => "[" ++ Text.commaSeparated (displays items) ++ "]"
  | hash entries => "\x7b" ++ Text.commaSeparated (entryDisplays entries) ++ "\x7d"

def displays : List Value → List String
  | [] => []
  | value :: rest => value.display :: displays rest

def entryDisplays : List (Scalar × Value) → List String
  | [] => []
  | (key, value) :: rest => (key.display ++ ": " ++ value.display) :: entryDisplays rest

end

/-- The value as a text of its own: strings and symbols are written out plainly. -/
def plain (value : Value) : String :=
  value.text?.getD value.display

end Value

end Formulary
