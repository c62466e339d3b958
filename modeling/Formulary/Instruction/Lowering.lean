import Formulary.Instruction
import Formulary.Instruction.MethodName

/-!
From the statements of an install body to instructions. Lowering stops at the first construct that has no
counterpart and names it together with the innermost statement around it.
-/

namespace Formulary

/-- What an error says about the statement around a construct. -/
structure Enclosing where
  kind : String
  line : Nat
deriving DecidableEq, Repr

def Enclosing.ofNode (node : Node) : Enclosing :=
  ⟨node.kind, node.line⟩

/-- A construct without a counterpart. A line of zero is unknown. -/
structure Unsupported where
  kind : String
  within : Option Enclosing
  line : Nat
deriving DecidableEq, Repr

namespace Unsupported

/-- The fault of a node, at its own line if it has one. -/
def ofNode (within : Option Enclosing) (node : Node) : Unsupported :=
  ⟨node.kind, within, if node.line = 0 then (within.map Enclosing.line).getD 0 else node.line⟩

def line? (fault : Unsupported) : Option Nat :=
  if fault.line = 0 then none else some fault.line

end Unsupported

def Enclosing.describe : Option Enclosing → String
  | none => "install body"
  | some statement => s!"'{statement.kind}' statement at line {statement.line}"

def Unsupported.message (fault : Unsupported) : String :=
  s!"Unsupported construct '{fault.kind}' in {Enclosing.describe fault.within}"

namespace Lowering

abbrev Result (α : Type) := Except Unsupported α

variable (within : Option Enclosing)

def refuse {α : Type} (node : Node) : Result α :=
  .error (Unsupported.ofNode within node)

mutual

def expression (within : Option Enclosing) : Node → Result Expression
  | .string _ pieces => return .string (← parts within pieces)
  | .symbol _ name => return .symbol name
  | .int _ value => return .int value
  | .array _ elements => return .array elements.length
  | .reference _ name => return .var name
  | .call _ name none args none _ =>
    return .bareCall (MethodName.encode name) (← expressions within args)
  | .call _ name (some receiver) args none _ => do
    let args ← expressions within args
    return .methodCall (← expression within receiver) (MethodName.encode name) args
  | .index _ base [subscript] => return .index (← expression within base) (← expression within subscript)
  | .binary _ op left right => return .binary op (← expression within left) (← expression within right)
  | .unary _ op operand => return .unary op (← expression within operand)
  | .assign _ target value => return .assign (← expression within target) (← expression within value)
  | .splat _ value false => return .splat (← expression within value)
  | .paren _ [inner] => expression within inner
  | node => refuse within node

def expressions (within : Option Enclosing) : List Node → Result (List Expression)
  | [] => return []
  | node :: rest => return (← expression within node) :: (← expressions within rest)

/-- The parts of a string; empty texts are left out. -/
def parts (within : Option Enclosing) : List (Piece Node) → Result (List (Part Expression))
  | [] => return []
  | .text value :: rest =>
    if value.isEmpty then parts within rest else return .text value :: (← parts within rest)
  | .code pos body :: rest => return .embed (← embedded within pos body) :: (← parts within rest)

/-- Embedded code, which must be one expression. A bare name is a substitution point, not a call. -/
def embedded (within : Option Enclosing) (pos : Position) : List Node → Result Expression
  | [inner] =>
    match inner.bareName? with
    | some name => return .var name
    | none => expression within inner
  | body => refuse within (.code pos body)

end

mutual

def statement (within : Option Enclosing) : Node → Result Instruction
  | .call _ name receiver (first :: rest) none _ => do
    let receiver ← receiver.mapM (expression within)
    return .command (MethodName.encode name) receiver (← expressions within (first :: rest))
  | .branchModifier _ polarity cond inner => do
    let cond ← expression within cond
    return .conditional polarity cond [← statement (some (.ofNode inner)) inner] none
  | .branch _ head cond statements orelse => do
    let elseBranch ← elseBody orelse
    let cond ← expression within cond
    return .conditional head.polarity cond (← body statements) elseBranch
  | .paren _ [inner] => statement within inner
  | node => return .expression (← expression within node)

/-- Statements in order, each of which is the enclosing statement of what it holds. -/
def body : List Node → Result (List Instruction)
  | [] => return []
  | node :: rest => return (← statement (some (.ofNode node)) node) :: (← body rest)

/-- What stands in the place of an else clause. -/
def elseBody : Option Node → Result (Option (List Instruction))
  | some (.elseClause _ statements) => return some (← body statements)
  | some node => do
    if node.isBranch then return some [← statement (some (.ofNode node)) node] else return none
  | none => return none

end

end Lowering

/-- The instructions of an install body. -/
def lowerInstall (statements : List Node) : Except Unsupported (List Instruction) :=
  Lowering.body statements

end Formulary
