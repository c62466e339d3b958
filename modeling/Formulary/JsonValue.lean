/-! JSON values. -/

namespace Formulary

inductive JsonValue where
  | null
  | bool (value : Bool)
  | int (value : Int)
  /-- A number written with a fraction or a power of ten: `mantissa` divided by ten to the `places`. -/
  | decimal (mantissa : Int) (places : Nat)
  | string (value : String)
  | array (items : List JsonValue)
  | object (fields : List (String × JsonValue))

namespace JsonValue

def string? : JsonValue → Option String
  | string value => some value
  | _ => none

def field? (name : String) (fields : List (String × JsonValue)) : Option JsonValue :=
  (fields.find? (·.1 = name)).map (·.2)

def stringField? (name : String) (fields : List (String × JsonValue)) : Option String :=
  (field? name fields).bind string?

end JsonValue

end Formulary
