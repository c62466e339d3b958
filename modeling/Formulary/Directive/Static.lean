import Formulary.Directive

/-!
Static evaluation: strings without embedded code, symbols, integers, `nil`, `true` and `false`, and arrays and
hashes of static values. Of equal keys a hash keeps the first as it is written, with the value of the last.
-/

namespace Formulary.Static

/-- A node that is no static value, or no key. -/
structure Fault where
  reason : Reason
  line : Nat

abbrev Result (α : Type) := Except Fault α

def refuse {α : Type} (node : Node) (reason : Reason) : Result α :=
  .error ⟨reason, node.line⟩

def notStatic {α : Type} (node : Node) : Result α :=
  refuse node (.notStatic node.kind)

/-- The text of a string without embedded code. -/
def plainText? : List (Piece Node) → Option String
  | [] => some ""
  | .text value :: rest => (plainText? rest).map (value ++ ·)
  | .code .. :: _ => none

def keyword? : String → Option Scalar
  | "nil" => some .nil
  | "true" => some (.bool true)
  | "false" => some (.bool false)
  | _ => none

/-- The value of a key, which the node `node` gives. -/
def asKey (node : Node) : Value → Result Scalar
  | .scalar key => .ok key
  | _ => refuse node .compositeKey

mutual

def value : Node → Result Value
  | .string pos pieces =>
    match plainText? pieces with
    | some text => .ok (.scalar (.string text))
    | none => refuse (.string pos pieces) .interpolated
  | .symbol _ name => .ok (.scalar (.symbol name))
  | .int _ number => .ok (.scalar (.int number))
  | .array _ elements => return .list (← values elements)
  | .hash _ pairs _ => return .hash (Entries.ofList (← entries pairs))
  | .reference pos name =>
    match keyword? name with
    | some scalar => .ok (.scalar scalar)
    | none => notStatic (.reference pos name)
  | .paren _ [inner] => value inner
  | node => notStatic node

def values : List Node → Result (List Value)
  | [] => return []
  | node :: rest => return (← value node) :: (← values rest)

/-- The pairs of a hash as they are written; a key is settled before its value. -/
def entries : List (Node × Node) → Result (List (Scalar × Value))
  | [] => return []
  | (key, content) :: rest => do
    let key ← asKey key (← value key)
    let content ← value content
    return (key, content) :: (← entries rest)

end

end Formulary.Static
