import Formulary.Syntax

/-! The instructions that an install body is lowered to. -/

namespace Formulary

/-- A part of a string over expressions of type `ε`. -/
inductive Part (ε : Type) where
  | text (value : String)
  | embed (expr : ε)

inductive Expression where
  | string (parts : List (Part Expression))
  | var (name : String)
  | bareCall (name : String) (args : List Expression)
  | methodCall (receiver : Expression) (method : String) (args : List Expression)
  | binary (op : String) (left right : Expression)
  | unary (op : String) (operand : Expression)
  /-- An array, of which only the length is kept. -/
  | array (length : Int)
  | index (base subscript : Expression)
  | symbol (name : String)
  | int (value : Int)
  | assign (target value : Expression)
  | splat (value : Expression)

inductive Instruction where
  | command (name : String) (receiver : Option Expression) (args : List Expression)
  /-- A test with its branches. A further test is the only instruction of the else branch. -/
  | conditional (polarity : Polarity) (cond : Expression) (thenBranch : List Instruction)
      (elseBranch : Option (List Instruction))
  | expression (expr : Expression)

end Formulary
