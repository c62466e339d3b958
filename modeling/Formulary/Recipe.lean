import Formulary.Syntax
import Formulary.Text.Case

/-! The parts of a recipe: its formula class and the class's install method. -/

namespace Formulary

/-- The class that a recipe is about. -/
structure FormulaClass where
  name : String
  body : List Node
  line : Nat

namespace Recipe

def topLevel : Node → List Node
  | .program _ body => body
  | _ => []

/-- The name of a superclass without its scopes; any other expression has none. -/
def superclassName : Option Node → String
  | some (.reference _ name) | some (.constPath _ _ name) => name
  | _ => ""

def formulaSuffix : List Char := "Formula".toList

def formulaClass? : Node → Option FormulaClass
  | .classDef pos name superclass body =>
    if formulaSuffix.isSuffixOf (superclassName superclass).toList then some ⟨name, body, pos.line⟩ else none
  | _ => none

/-- The last class at top level whose superclass is a kind of formula. -/
def findFormulaClass (program : Node) : Option FormulaClass :=
  ((topLevel program).filterMap formulaClass?).getLast?

def installBody? : Node → Option (List Node)
  | .methodDef _ "install" _ body false => some body
  | _ => none

/-- The statements of the first instance method with the name `install`. -/
def findInstallBody (formula : FormulaClass) : Option (List Node) :=
  formula.body.findSome? installBody?

/-- The last name of a scoped one; `segment` is what was read since the last scope mark. -/
def lastName (segment : List Char) : List Char → List Char
  | [] => segment
  | ':' :: ':' :: rest => lastName [] rest
  | c :: rest => lastName (segment ++ [c]) rest

/-- The name of the formula that a class is about. -/
def formulaName (className : String) : String :=
  Text.lower (String.ofList (lastName [] className.toList))

end Recipe

end Formulary
